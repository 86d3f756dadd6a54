import Telemetry.Failure
import Telemetry.Text.Blank
/-!
The callback that every failure of a relay is handed to.

The callback may ask for the relay to be closed, and it may panic. A panic goes no further than the
reporter: it leaves one report in the diagnostics, and the failure counts as reported either way. A
report has as many lines as the text that it is about.
-/

namespace Telemetry

/-- What a callback panics with: a text, a text followed by that of the failure, or a value that is
no text. -/
inductive Panic where
  | words (text : String)
  | citing (text : String)
  | wordless
  deriving DecidableEq, Repr

def Panic.text (p : Panic) (f : Failure) : String :=
  match p with
  | .words text => text
  | .citing text => text ++ f.message
  | .wordless => "Box<dyn Any>"

/-- What the callback does in one call. It closes the relay before anything else. -/
structure Reaction where
  closes : Bool
  panics : Option Panic
  deriving DecidableEq, Repr

def Reaction.quiet : Reaction := ⟨false, none⟩

structure Reporter where
  /-- The reactions to the coming calls; past their end the callback is quiet. -/
  reactions : List Reaction
  /-- The failures reported so far, in order. -/
  reported : List Failure
  /-- The reports that panics have left, in order. -/
  diagnostics : List String

namespace Reporter

def ofReactions (reactions : List Reaction) : Reporter := ⟨reactions, [], []⟩

def reaction (r : Reporter) : Reaction := r.reactions.headD .quiet

/-- What every report of a panic starts with. -/
def panicMark : String := "panic: "

/-- The report that a panic leaves. -/
def diagnostic (text : String) : String := panicMark ++ text ++ " [recovered]"

def report (r : Reporter) (f : Failure) : Reporter where
  reactions := r.reactions.tail
  reported := r.reported ++ [f]
  diagnostics := r.diagnostics ++ (r.reaction.panics.map fun p => diagnostic (p.text f)).toList

/-- The lines of the diagnostics that carry the mark of a panic. A report that goes over several
lines has the mark at its first one, and again where its own text brings it. -/
def panicLines (r : Reporter) : List String :=
  (r.diagnostics.flatMap fun report =>
    (Text.lines report.toList).filter panicMark.toList.isPrefixOf).map String.ofList

@[simp] theorem reported_report (r : Reporter) (f : Failure) :
    (r.report f).reported = r.reported ++ [f] := rfl

end Reporter
end Telemetry
