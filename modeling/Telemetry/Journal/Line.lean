import Telemetry.Decimal.Layout
import Telemetry.Event
import Telemetry.Journal.Quoted
/-!
The line of a journal that records one event.

A line is one JSON object whose members are, in this order, `type`, `name`, `help` unless it is
empty, `value`, and `tags` unless there are none. Tags are an object with their names as keys, in
their own order; a name that occurs twice is a key that occurs twice. A line is given as the pieces
in which it is written.
-/

namespace Telemetry
namespace Journal

/-- A piece of a line: the characters that one call hands to the buffer. -/
abbrev Piece := List Char

/-- Numbers carry the sign of a positive exponent. -/
def numberLayout : Decimal.Layout := ⟨true⟩

/-- A number that is not finite has no text in JSON and is written as null. -/
def numberText (x : Binary64) : List Char :=
  if x.isFinite then (Decimal.finiteText numberLayout x).toList else "null".toList

/-- The value and the kind of a reading. A span of time is recorded in seconds. -/
def value : Reading → Binary64
  | .set v => v
  | .add v => v
  | .observe span => span.toSeconds

def kind : Reading → String
  | .set _ => "gauge"
  | .add _ => "counter"
  | .observe _ => "histogram"

def textPieces (s : String) : List Piece := Quoted.pieces s.toList

def memberPieces (key : String) (valuePieces : List Piece) : List Piece :=
  textPieces key ++ [':'] :: valuePieces

def separated : List (List Piece) → List Piece
  | [] => []
  | [m] => m
  | m :: n :: ms => m ++ [','] :: separated (n :: ms)

def objectPieces (members : List (List Piece)) : List Piece :=
  ['\x7b'] :: separated members ++ [['\x7d']]

def tagsPieces (tags : Tags) : List Piece :=
  objectPieces (tags.list.map fun tag => memberPieces tag.name (textPieces tag.value))

def members (e : Event) : List (List Piece) :=
  [memberPieces "type" (textPieces (kind e.reading)),
   memberPieces "name" (textPieces e.metric.name)] ++
  (if e.metric.help.isEmpty then [] else [memberPieces "help" (textPieces e.metric.help)]) ++
  [memberPieces "value" [numberText (value e.reading)]] ++
  (if e.metric.tags.isEmpty then [] else [memberPieces "tags" (tagsPieces e.metric.tags)])

/-- The pieces of an event's line, the line feed last and by itself. -/
def linePieces (e : Event) : List Piece := objectPieces (members e) ++ [['\n']]

def line (e : Event) : List Char := (linePieces e).flatten

def tagsText (tags : Tags) : String := String.ofList (tagsPieces tags).flatten

end Journal
end Telemetry
