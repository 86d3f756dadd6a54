import Telemetry.Decimal.Layout
import Telemetry.Event
import Telemetry.Failure
/-!
Lines of the StatsD protocol with tags.

A line is `name:value|kind`, with `|#` and the tags behind it if there are any, and a line feed. A
tag is its name, with a colon and its value unless the value is empty. A scope that is not empty
stands before the name with a point between them. A value without a fraction and below 10^15 is
written as a whole number. Nothing is escaped.
-/

namespace Telemetry

/-- The encoder, with the scope that it puts before every name. -/
structure Statsd where
  scope : String
  deriving DecidableEq, Repr

namespace Statsd

/-- A positive exponent has no sign. -/
def numberLayout : Decimal.Layout := ⟨false⟩

/-- Whole numbers from here on are written like fractions. -/
def wholeBelow : Nat := 10 ^ 15

/-- The text of a finite number. Negative zero is zero. -/
def numberText (x : Binary64) : String :=
  if x.isWhole && x.whole < wholeBelow then
    (if x.negative && x.whole != 0 then "-" else "") ++ Decimal.wholeText x.whole
  else Decimal.finiteText numberLayout x

def kindText : Reading → String
  | .set _ => "g"
  | .add _ => "c"
  | .observe _ => "ms"

/-- A span of time is sent in milliseconds. -/
def value : Reading → Binary64
  | .set v => v
  | .add v => v
  | .observe span => span.toMillis

def tagText (tag : Tag) : String :=
  if tag.value.isEmpty then tag.name else tag.name ++ ":" ++ tag.value

def tagsText (tags : Tags) : String :=
  if tags.isEmpty then "" else "|#" ++ String.intercalate "," (tags.list.map tagText)

def lead (s : Statsd) : String := if s.scope.isEmpty then "" else s.scope ++ "."

def line (s : Statsd) (e : Event) : String :=
  s.lead ++ e.metric.name ++ ":" ++ numberText (value e.reading) ++ "|" ++ kindText e.reading ++
    tagsText e.metric.tags ++ "\n"

inductive Refusal where
  | notFinite (value : Binary64)
  | noName
  deriving DecidableEq, Repr

def Refusal.toIoError : Refusal → IoError
  | .notFinite v => .described .invalidInput ("non-finite value " ++ v.nonFiniteText)
  | .noName => .described .invalidInput "empty metric name"

/-- The line of an event with a finite value and a name; the value is looked at first. -/
def encode (s : Statsd) (e : Event) : Except Refusal String :=
  if !(value e.reading).isFinite then .error (.notFinite (value e.reading))
  else if e.metric.name.isEmpty then .error .noName
  else .ok (s.line e)

end Statsd
end Telemetry
