import Telemetry.Sink
/-!
Writing bytes to a connection before a deadline.

A connection bounds the time of a single call only. So before each call its bound is lowered to the
time left, and no call is made once the clock has reached the deadline.
-/

namespace Telemetry

/-- A clock that never goes back. Time passes by itself before each reading, as listed; past the end
of the list it passes only through what is done. -/
structure Clock where
  now : Moment
  lags : List Nat
  deriving DecidableEq, Repr

namespace Clock

/-- The clock at its next reading. -/
def read (c : Clock) : Clock := ⟨c.now + c.lags.headD 0, c.lags.tail⟩

def pass (c : Clock) (nanos : Nat) : Clock := { c with now := c.now + nanos }

/-- The clock at a moment, unless it is later already. -/
def wait (c : Clock) (m : Moment) : Clock := { c with now := max c.now m }

theorem le_read (c : Clock) : c.now ≤ c.read.now := Nat.le_add_right _ _

end Clock

/-- The fault that stopped a transfer, if any, with the connection and the clock after it. -/
structure Transferred where
  fault : Option IoError
  connection : Sink
  clock : Clock

/-- Offer all bytes before a deadline. An interrupted call is made again; a call that takes nothing
is a fault. -/
def Sink.transfer (deadline : Moment) (data : Bytes) (s : Sink) (clock : Clock) : Transferred :=
  if data.isEmpty then ⟨none, s, clock⟩
  else if deadline ≤ clock.read.now then ⟨some (.bare .timedOut), s, clock.read⟩
  else
    let limited := s.setLimit (deadline - clock.read.now)
    let bounded := clock.read.pass limited.1.delay
    match limited.1.answer with
    | some e => ⟨some e, limited.2, bounded⟩
    | none =>
      let sent := limited.2.write data
      let later := bounded.pass sent.1.delay
      match _h : sent.1.answer with
      | .ok n =>
        if n = 0 then ⟨some (.bare .writeZero), sent.2, later⟩
        else Sink.transfer deadline (data.drop n) sent.2 later
      | .error e =>
        if e.isInterrupted then Sink.transfer deadline data sent.2 later
        else ⟨some e, sent.2, later⟩
termination_by data.length + s.patience
decreasing_by
  · have hw : ((s.setLimit (deadline - clock.read.now)).2.write data).2.patience ≤ s.patience :=
      Nat.le_trans (Sink.patience_write_le _ _) (Nat.le_of_eq (s.patience_setLimit _))
    have hn := Sink.write_le _h
    simp only [List.length_drop]
    omega
  · rename_i hi
    have hw : ((s.setLimit (deadline - clock.read.now)).2.write data).2.patience < s.patience :=
      Nat.lt_of_lt_of_eq (Sink.patience_write_lt _h hi) (s.patience_setLimit _)
    omega

end Telemetry
