import Telemetry.Duration
import Telemetry.Text.Blank
import Telemetry.Text.Numeral
/-!
Texts of time spans.

A text is a sequence of groups, each a number and a unit, such as `1h 30m`; their spans are added up
in nanoseconds below 2^64. Blanks around the text and around units do not count, and the text `0`
alone is no time at all. A text without any unit that is a numeral as it stands is a number of
seconds.
-/

namespace Telemetry
namespace Interval

/-- Why a text is no sequence of groups. -/
inductive Fault where
  | empty
  | missingValue
  | overflow
  | unknownUnit
  | missingUnit
  deriving DecidableEq, Repr

def Fault.message : Fault → String
  | .empty => "empty input"
  | .missingValue => "missing value"
  | .overflow => "value overflow"
  | .unknownUnit => "invalid unit"
  | .missingUnit => "missing unit"

/-- The units with their nanoseconds. -/
def units : List (List Char × Nat) :=
  [(['n', 's'], 1), (['u', 's'], 10 ^ 3), (['m', 's'], 10 ^ 6), (['s'], 10 ^ 9),
   (['m'], 60 * 10 ^ 9), (['h'], 3600 * 10 ^ 9), (['d'], 86400 * 10 ^ 9)]

/-- Every number and every sum stays below this. -/
def limit : Nat := 2 ^ 64

/-- The nanoseconds of one group. -/
def group (number unit : List Char) : Except Fault Nat :=
  match Numeral.parse limit number with
  | .error .tooLarge => .error .overflow
  | .error _ => .error .missingValue
  | .ok n =>
    if unit.isEmpty then .error .missingUnit
    else
      match units.lookup (Text.trim unit) with
      | none => .error .unknownUnit
      | some nanos => if n * nanos < limit then .ok (n * nanos) else .error .overflow

/-- The sum of the groups of a text behind a sum already made. A number is a run of digits, and a
unit is all that stands before the next digit. -/
def groups (total : Nat) (cs : List Char) : Except Fault Nat :=
  if cs.isEmpty then .ok total
  else
    let number := cs.takeWhile Numeral.isDigit
    let behind := cs.dropWhile Numeral.isDigit
    if _h : number.isEmpty then .error .missingValue
    else
      match group number (behind.takeWhile fun c => !Numeral.isDigit c) with
      | .error f => .error f
      | .ok n =>
        if total + n < limit then
          groups (total + n) (behind.dropWhile fun c => !Numeral.isDigit c)
        else .error .overflow
termination_by cs.length
decreasing_by
  have hlen : (cs.takeWhile Numeral.isDigit).length + (cs.dropWhile Numeral.isDigit).length
      = cs.length := by
    rw [← List.length_append, List.takeWhile_append_dropWhile]
  have hpos : 0 < (cs.takeWhile Numeral.isDigit).length := by
    cases hn : cs.takeWhile Numeral.isDigit with
    | nil => simp_all [number]
    | cons c r => simp
  have hle := (List.dropWhile_suffix (fun c => !Numeral.isDigit c)
    (l := cs.dropWhile Numeral.isDigit)).length_le
  show (List.dropWhile _ (cs.dropWhile Numeral.isDigit)).length < cs.length
  omega

/-- The span of a text of groups, in nanoseconds. -/
def parse (cs : List Char) : Except Fault Nat :=
  let inner := Text.trim cs
  if inner.isEmpty then .error .empty
  else if inner = ['0'] then .ok 0
  else groups 0 inner

/-- Why a text is no span of time. -/
inductive Refusal where
  | notSeconds
  | notGroups (fault : Fault)
  deriving DecidableEq, Repr

/-- The span of a text. Where a group lacks its unit, the whole text, blanks included, has to be a
number of seconds. -/
def ofText (s : String) : Except Refusal Duration :=
  match parse s.toList with
  | .ok nanos => .ok (.clamp nanos)
  | .error .missingUnit =>
    match Numeral.parse limit s.toList with
    | .ok n => .ok (.ofSeconds n)
    | .error _ => .error .notSeconds
  | .error f => .error (.notGroups f)

end Interval
end Telemetry
