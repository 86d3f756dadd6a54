import Telemetry.Sink
/-!
Dialing until a connection is there, with a pause after each failure.

The first pause of a cycle is the shortest one; each further pause is twice the one before, up to a
maximum. A cycle is given as the list of what is done in it, in order, so that a failure is seen to
be reported before the pause that follows it.
-/

namespace Telemetry

/-- The pauses of a cycle: the next one, and the longest one after it. -/
structure Backoff where
  next : Duration
  max : Duration
  deriving DecidableEq, Repr

namespace Backoff

def advance (b : Backoff) : Backoff := { b with next := (b.next.saturatingAdd b.next).shorter b.max }

def delays (b : Backoff) : Nat → List Duration
  | 0 => []
  | n + 1 => b.next :: b.advance.delays n

end Backoff

inductive DialAnswer where
  | refuse (cause : IoError)
  | accept (connection : Sink)

inductive DialStep where
  | dial
  | refused (cause : IoError)
  | pause (span : Duration)
  | established

structure Cycle where
  steps : List DialStep
  connection : Sink
  /-- The answers left for later cycles. -/
  answers : List DialAnswer

namespace Backoff

/-- Dial until an answer is a connection. Past the end of the answers every dial call gives a
connection that never fails. -/
def connect (b : Backoff) : List DialAnswer → Cycle
  | [] => ⟨[.dial, .established], .ideal, []⟩
  | .accept connection :: answers => ⟨[.dial, .established], connection.opened, answers⟩
  | .refuse cause :: answers =>
    let later := b.advance.connect answers
    ⟨.dial :: .refused cause :: .pause b.next :: later.steps, later.connection, later.answers⟩

end Backoff
end Telemetry
