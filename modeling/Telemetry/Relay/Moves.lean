import Telemetry.Relay.Basic
import Telemetry.Run
/-!
A relay step by step, in any order.

A move is a whole call of a producer or a closer, one step of the worker, or the passing of time.
The order of the moves is anyone's choice; a move that the relay's state does not allow is no step.
-/

namespace Telemetry
namespace Relay

inductive Move where
  | submit (e : Event)
  | close
  | take
  | handle
  | tick
  | finish
  | wait (nanos : Nat)

def step (r : Relay) : Move → Option Relay
  | .submit e => some (r.submit e)
  | .close => some r.close
  | .take => r.take?
  | .handle => r.handle?
  | .tick => r.tick?
  | .finish => r.finish?
  | .wait nanos => some (r.setClock (r.clock.pass nanos))

/-- The event that the worker has in hand. -/
def inHand (r : Relay) : List Event :=
  match r.stage with
  | .holding e => [e]
  | _ => []

/-! ## What a move does -/

/-- The event that the move offers to the relay. -/
def offered : Relay × Move → List Event
  | (_, .submit e) => [e]
  | _ => []

/-- The event that the move puts into the queue. -/
def accepted : Relay × Move → List Event
  | (r, .submit e) => if r.isOpen && r.accepts then [e] else []
  | _ => []

/-- The event that the move hands to the encoder. -/
def encoded : Relay × Move → List Event
  | (r, .handle) => r.inHand
  | _ => []

end Relay
end Telemetry
