import Telemetry.Sink
/-!
A buffer of fixed size in front of a sink.

Bytes wait in the buffer until the next ones do not fit or the buffer is emptied. Emptying it offers
the waiting bytes until they are all taken. If that fails, the bytes that were taken are gone from
the buffer and all others stay, so emptying it again goes on where it stopped.
-/

namespace Telemetry

/-- What became of bytes offered to a sink until all are taken: the fault that stopped it, the bytes
not taken, and the sink. -/
structure Drained where
  fault : Option IoError
  left : Bytes
  sink : Sink

/-- Offer bytes until all are taken. An interrupted call is made again; a call that takes nothing
is the fault `stuck`. -/
def Sink.drain (stuck : IoError) (data : Bytes) (s : Sink) : Drained :=
  if data.isEmpty then ⟨none, [], s⟩
  else
    match _h : (s.write data).1.answer with
    | .ok n =>
      if n = 0 then ⟨some stuck, data, (s.write data).2⟩
      else Sink.drain stuck (data.drop n) (s.write data).2
    | .error e =>
      if e.isInterrupted then Sink.drain stuck data (s.write data).2
      else ⟨some e, data, (s.write data).2⟩
termination_by data.length + s.patience
decreasing_by
  · have := s.patience_write_le data
    have := Sink.write_le _h
    simp only [List.length_drop]
    omega
  · rename_i hi
    have := Sink.patience_write_lt _h hi
    omega

/-- No byte is lost and none is taken twice, whether a fault stops the sink or not. -/
theorem Sink.content_drain (stuck : IoError) (data : Bytes) (s : Sink) :
    (s.drain stuck data).sink.content ++ (s.drain stuck data).left = s.content ++ data := by
  fun_induction Sink.drain stuck data s with
  | case1 data s h => simp_all
  | case2 data s h h2 => simp [Sink.content_write, h2, SinkCall.taken]
  | case3 data s h n h2 hn ih =>
    rw [ih, Sink.content_write, h2]
    simp [SinkCall.taken, List.append_assoc]
  | case4 data s h e h2 hi ih =>
    rw [ih, Sink.content_write, h2]
    simp [SinkCall.taken]
  | case5 data s h e h2 hi => simp [Sink.content_write, h2, SinkCall.taken]

/-- A sink behind a buffer with the bytes that wait in it. -/
structure Buffered where
  sink : Sink
  held : Bytes

namespace Buffered

def capacity : Nat := 8192

/-- A call took nothing: while emptying the buffer, and while writing past it. -/
def stuckEmptying : IoError := .described .writeZero "failed to write the buffered data"

def stuckWriting : IoError := .described .writeZero "failed to write whole buffer"

def ofSink (sink : Sink) : Buffered := ⟨sink, []⟩

def room (b : Buffered) : Nat := capacity - b.held.length

def empty (b : Buffered) : Option IoError × Buffered :=
  let d := b.sink.drain stuckEmptying b.held
  (d.fault, ⟨d.sink, d.left⟩)

def hold (b : Buffered) (data : Bytes) : Buffered := { b with held := b.held ++ data }

/-- Offer bytes to the sink itself. Bytes not taken before a fault are lost. -/
def bypass (b : Buffered) (data : Bytes) : Option IoError × Buffered :=
  let d := b.sink.drain stuckWriting data
  (d.fault, { b with sink := d.sink })

/-- Bytes as large as the buffer go past it, all others wait in it. -/
def place (b : Buffered) (data : Bytes) : Option IoError × Buffered :=
  if capacity ≤ data.length then b.bypass data else (none, b.hold data)

/-- Write bytes. Those that do not fit make the buffer be emptied first. -/
def put (b : Buffered) (data : Bytes) : Option IoError × Buffered :=
  if data.length < b.room then (none, b.hold data)
  else if b.room < data.length then
    match b.empty with
    | (none, b) => b.place data
    | (some e, b) => (some e, b)
  else b.place data

def putAll (b : Buffered) : List Bytes → Option IoError × Buffered
  | [] => (none, b)
  | p :: ps =>
    match b.put p with
    | (none, b) => b.putAll ps
    | (some e, b) => (some e, b)

def flush (b : Buffered) : Option IoError × Buffered :=
  match b.empty with
  | (none, b) => (b.sink.flush.1.answer, { b with sink := b.sink.flush.2 })
  | (some e, b) => (some e, b)

end Buffered
end Telemetry
