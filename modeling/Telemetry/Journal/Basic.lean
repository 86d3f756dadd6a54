import Telemetry.Journal.Buffered
import Telemetry.Journal.Line
/-!
A journal: a receiver of events that writes each one as a line to a buffered sink.

Nothing is sure to have reached the sink before the journal is closed. An event that fails may have
left a part of its line behind.
-/

namespace Telemetry

structure Journal where
  out : Buffered

namespace Journal

def ofSink (sink : Sink) : Journal := ⟨.ofSink sink⟩

def outcome : Option IoError → Outcome
  | none => .ok ()
  | some e => .error (.io e)

/-- Write an event's line piece by piece. -/
def record (j : Journal) (e : Event) : Outcome × Journal :=
  let (fault, out) := j.out.putAll ((linePieces e).map Bytes.ofChars)
  (outcome fault, ⟨out⟩)

/-- Write out what waits and flush the sink. A journal may be written to after it was closed. -/
def close (j : Journal) : Outcome × Journal :=
  let (fault, out) := j.out.flush
  (outcome fault, ⟨out⟩)

def answer (c : Call) (j : Journal) : Outcome × Journal :=
  match c with
  | .event e => j.record e
  | .close => j.close

/-- Take the sink out of the journal after the waiting bytes; the sink is not flushed. -/
def intoSink (j : Journal) : Except IoError Sink :=
  match j.out.empty with
  | (none, out) => .ok out.sink
  | (some e, _) => .error e

end Journal
end Telemetry
