import Telemetry.Relay.Moves
/-!
A relay shared by threads, step by step.

A call that submits an event finds the entrance, which it keeps hold of, offers the event, and lets
go of the entrance. A call that closes the relay empties the entrance and then waits for the worker,
unless somebody else does so already. The callback of a refused event runs between offering and
letting go, and may itself close the relay; on the worker's own thread closing never waits. The
queue counts as disconnected only when the entrance is empty and no thread holds on to what it found
there.
-/

namespace Telemetry

/-- Where a thread stands, and whether it holds on to the entrance. -/
inductive Point where
  | outside
  | loaded (e : Event) (holds : Bool)
  | emptied (holds : Bool)
  | joining (holds : Bool)
  | leaving (holds : Bool)

namespace Point

def holds : Point → Bool
  | .outside => false
  | .loaded _ holds => holds
  | .emptied holds => holds
  | .joining holds => holds
  | .leaving holds => holds

def isJoining : Point → Bool
  | .joining _ => true
  | _ => false

end Point

/-- What the worker turns to while it has no event in hand. It starts by choosing the moment for a
flush. A wait that lasted until then ends in the flush, whatever gets into the queue in between. -/
inductive Phase where
  | starting
  | waiting
  | expired

structure Threads where
  relay : Relay
  points : List Point
  /-- Nobody has taken it on to wait for the worker. -/
  joinable : Bool
  phase : Phase

namespace Threads

def start (relay : Relay) (count : Nat) : Threads :=
  ⟨relay, List.replicate count .outside, true, .starting⟩

/-- The entrance is still reachable for somebody. -/
def isConnected (t : Threads) : Bool := t.relay.isOpen || t.points.any Point.holds

def moveTo (t : Threads) (i : Nat) (p : Point) : Threads := { t with points := t.points.set i p }

/-- What a thread can do next, what the worker can do next, and the passing of time. -/
inductive Move where
  | load (i : Nat) (e : Event)
  | send (i : Nat)
  | close (i : Nat)
  | claim (i : Nat)
  | joined (i : Nat)
  | leave (i : Nat)
  | begin
  | take
  | handle
  | expire
  | tick
  | finish
  | wait (nanos : Nat)

/-- The thread finds the entrance, or finds it empty. -/
def load (t : Threads) (i : Nat) (e : Event) : Threads := t.moveTo i (.loaded e t.relay.isOpen)

/-- The thread offers its event. A callback that closes leads into closing. -/
def send (t : Threads) (i : Nat) (e : Event) (holds : Bool) : Threads :=
  if holds && t.relay.accepts then
    { t.moveTo i (.leaving holds) with relay := t.relay.accept e }
  else
    let closes := t.relay.reporter.reaction.closes
    { t.moveTo i (if closes then .emptied holds else .leaving holds) with
      relay := if holds then t.relay.offer e else t.relay.refuseClosed e }

/-- The thread takes it on to wait for the worker, if nobody has. -/
def claim (t : Threads) (i : Nat) (holds : Bool) : Threads :=
  if t.joinable then { t.moveTo i (.joining holds) with joinable := false }
  else t.moveTo i (.leaving holds)

def onRelay (t : Threads) (r : Option Relay) : Option Threads :=
  r.map fun relay => { t with relay }

def step (t : Threads) : Move → Option Threads
  | .load i e =>
    match t.points[i]? with
    | some .outside => some (t.load i e)
    | _ => none
  | .send i =>
    match t.points[i]? with
    | some (.loaded e holds) => some (t.send i e holds)
    | _ => none
  | .close i =>
    match t.points[i]? with
    | some .outside => some { t.moveTo i (.emptied false) with relay := t.relay.close }
    | _ => none
  | .claim i =>
    match t.points[i]? with
    | some (.emptied holds) => some (t.claim i holds)
    | _ => none
  | .joined i =>
    match t.points[i]? with
    | some (.joining holds) =>
      if t.relay.isServing then none else some (t.moveTo i (.leaving holds))
    | _ => none
  | .leave i =>
    match t.points[i]? with
    | some (.leaving _) => some (t.moveTo i .outside)
    | _ => none
  | .begin =>
    match t.phase, t.relay.stage with
    | .starting, .idle => some { t with relay := t.relay.schedule, phase := .waiting }
    | _, _ => none
  | .take =>
    match t.phase with
    | .waiting => t.onRelay t.relay.take?
    | _ => none
  | .handle => t.onRelay t.relay.handle?
  | .expire =>
    match t.phase with
    | .waiting =>
      if t.relay.isIdle && t.isConnected && t.relay.isDue then some { t with phase := .expired }
      else none
    | _ => none
  | .tick =>
    match t.phase, t.relay.stage with
    | .expired, .idle => some { t with relay := t.relay.flushDue, phase := .waiting }
    | _, _ => none
  | .finish =>
    match t.phase with
    | .waiting =>
      if t.relay.isIdle && !t.isConnected then some { t with relay := t.relay.windUp } else none
    | _ => none
  | .wait nanos => some { t with relay := t.relay.setClock (t.relay.clock.pass nanos) }

/-! ## What a move does -/

/-- The event that the move offers to the relay. -/
def offered : Threads × Move → List Event
  | (t, .send i) =>
    match t.points[i]? with
    | some (.loaded e _) => [e]
    | _ => []
  | _ => []

/-- The event that the move puts into the queue. -/
def accepted : Threads × Move → List Event
  | (t, .send i) =>
    match t.points[i]? with
    | some (.loaded e holds) => if holds && t.relay.accepts then [e] else []
    | _ => []
  | _ => []

/-- The event that the move hands to the encoder. -/
def encoded : Threads × Move → List Event
  | (t, .handle) => t.relay.inHand
  | _ => []

end Threads
end Telemetry
