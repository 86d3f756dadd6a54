import Telemetry.Relay.Basic
/-!
Schedules of a relay's worker that need no further choice.

`serve` lets the worker go on until it has to wait for an event, a flush or the relay's closing.
Time passes only through what the worker does, so no flush comes due on the way by itself.
-/

namespace Telemetry
namespace Relay

/-- A call that submits an event now waits for itself: the queue is full, and the callback closes
the relay while the call still holds on to the entrance. -/
def selfWaits (r : Relay) : Bool :=
  r.isOpen && r.isServing && r.isFull && r.reporter.reaction.closes

/-- The worker's next step that waits for nothing. -/
def next? (r : Relay) : Option Relay := r.handle? <|> r.take? <|> r.finish?

/-- At most `n` steps of the worker. -/
def steps : Nat → Relay → Relay
  | 0, r => r
  | n + 1, r =>
    match r.next? with
    | none => r
    | some s => steps n s

/-- Every event in the queue takes two steps, one may be in hand, and one step ends the worker. -/
def stepBound (r : Relay) : Nat := 2 * r.queue.length + 2

/-- Let the worker go on until it has to wait. -/
def serve (r : Relay) : Relay := steps r.stepBound r

/-- Let the worker take an event, and no more than that. -/
def takeOne (r : Relay) : Relay := r.take?.getD r

/-- Let time pass until a flush is due, and let the worker make it. -/
def tick (r : Relay) : Relay :=
  let r := r.setClock (r.clock.wait r.nextFlush)
  (r.tick?.getD r).serve

/-- Let flushes come due, at most `n` of them, until so many bytes have been taken. -/
def tickUntil (bytes : Nat) : Nat → Relay → Relay
  | 0, r => r
  | n + 1, r => if bytes ≤ r.bytesTaken then r else tickUntil bytes n r.tick

/-- Close the relay and wait for the worker to end. -/
def shutDown (r : Relay) : Relay := r.close.serve

end Relay
end Telemetry
