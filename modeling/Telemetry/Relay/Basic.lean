import Telemetry.Relay.Dialing
import Telemetry.Relay.Reporter
import Telemetry.Relay.Transmitter
/-!
A relay: events from many producers, sent to a remote endpoint by one worker.

Producers put events into a bounded queue and never wait; what the queue cannot take is counted and
reported. The worker takes one event at a time, dials when it has no connection, and writes the
event. When a flush is due and the queue is empty it flushes what has been gathered. Once the relay
is closed and the queue is empty it writes out the rest and ends. A crash ends it at once, with all
that it held.

Each definition below that answers an `Option Relay` is a step that can be taken in some states
only; the order of steps is the schedule's choice.
-/

namespace Telemetry

/-- Where the worker stands between two steps. -/
inductive Stage where
  | idle
  | holding (e : Event)
  | ended
  | crashed

structure Relay where
  network : String
  address : String
  /-- The pauses of every cycle of dialing. -/
  backoff : Backoff
  codec : Codec
  /-- So many events fit into the queue. -/
  capacity : Nat
  flushInterval : Duration
  transmitter : Transmitter
  reporter : Reporter
  /-- The answers to the coming dial calls. -/
  answers : List DialAnswer
  /-- The dial calls so far. -/
  dials : Nat
  /-- The pauses so far, in order. -/
  pauses : List Duration
  queue : List Event
  /-- Producers find the queue's entrance here until the relay is closed. -/
  isOpen : Bool
  stage : Stage
  nextFlush : Moment

namespace Relay

def count (r : Relay) (f : Counters → Counters) : Relay :=
  { r with transmitter := { r.transmitter with counters := f r.transmitter.counters } }

def clock (r : Relay) : Clock := r.transmitter.clock

def setClock (r : Relay) (clock : Clock) : Relay :=
  { r with transmitter := { r.transmitter with clock } }

/-- Hand a failure to the callback, which may close the relay. -/
def report (r : Relay) (f : Failure) : Relay :=
  { r with
    reporter := r.reporter.report f
    isOpen := r.isOpen && !r.reporter.reaction.closes }

/-! ## Producers -/

def isServing (r : Relay) : Bool :=
  match r.stage with
  | .idle => true
  | .holding _ => true
  | .ended => false
  | .crashed => false

def isFull (r : Relay) : Bool := r.capacity ≤ r.queue.length

/-- The event found the relay closed. -/
def refuseClosed (r : Relay) (e : Event) : Relay :=
  (r.count .addQueueClosed).report (.queueClosed e.metric.name)

def refuseFull (r : Relay) (e : Event) : Relay :=
  (r.count .addQueueFull).report (.queueFull e.metric.name)

def accept (r : Relay) (e : Event) : Relay :=
  { r.count .addQueued with queue := r.queue ++ [e] }

/-- An event offered to the queue now is accepted. -/
def accepts (r : Relay) : Bool := r.isServing && !r.isFull

/-- Put an event into the queue, for a producer that has found the entrance. -/
def offer (r : Relay) (e : Event) : Relay :=
  if !r.isServing then r.refuseClosed e
  else if r.isFull then r.refuseFull e
  else r.accept e

def submit (r : Relay) (e : Event) : Relay :=
  if r.isOpen then r.offer e else r.refuseClosed e

/-- Close the entrance. What is in the queue stays there for the worker. -/
def close (r : Relay) : Relay := { r with isOpen := false }

/-! ## The worker -/

/-- The worker is gone, and with it the queue and the connection. -/
def crash (r : Relay) : Relay :=
  { r with stage := .crashed, queue := [], transmitter := r.transmitter.disconnect }

def dialStep (r : Relay) : DialStep → Relay
  | .dial => { r with dials := r.dials + 1 }
  | .refused cause => (r.count .addDialFailed).report (.dial r.network r.address cause)
  | .pause span => { r.setClock (r.clock.pass span.nanos) with pauses := r.pauses ++ [span] }
  | .established => r.count .addEstablished

def connect (r : Relay) : Relay :=
  let cycle := r.backoff.connect r.answers
  let r := cycle.steps.foldl dialStep r
  { r with transmitter := r.transmitter.connect cycle.connection, answers := cycle.answers }

def ensureConnected (r : Relay) : Relay :=
  if r.transmitter.connection.isNone then r.connect else r

/-- Take over what an operation of the transmitter left, and act on its verdict. -/
def conclude (r : Relay) (result : Verdict × Transmitter) : Relay :=
  let r := { r with transmitter := result.2 }
  match result.1 with
  | .done => r
  | .failed f => r.report f
  | .crashed => r.crash

/-- Choose the next moment for a flush. One that no clock can show is a crash. -/
def schedule (r : Relay) : Relay :=
  let clock := r.clock.read
  match Moment.after? clock.now r.flushInterval with
  | none => (r.setClock clock).crash
  | some m => { r.setClock clock with nextFlush := m }

/-- Take the next event from the queue. An event that waits is taken even if a flush is due. -/
def take? (r : Relay) : Option Relay :=
  match r.stage, r.queue with
  | .idle, e :: queue => some { r with stage := .holding e, queue }
  | _, _ => none

def handle? (r : Relay) : Option Relay :=
  match r.stage with
  | .holding e =>
    let r := { r with stage := .idle }.ensureConnected
    some (r.conclude (r.transmitter.write e.metric.name (r.codec e)))
  | _ => none

/-- The worker has nothing in hand and finds nothing in the queue. -/
def isIdle (r : Relay) : Bool :=
  match r.stage with
  | .idle => r.queue.isEmpty
  | _ => false

def isDue (r : Relay) : Bool := r.nextFlush ≤ r.clock.now

/-- Flush what has been gathered, and choose the moment for the next time. -/
def flushDue (r : Relay) : Relay :=
  let r := r.ensureConnected
  let r := r.conclude r.transmitter.flushAll
  if r.isServing then r.schedule else r

/-- The flush that is due, when nothing waits in the queue and something may still come. -/
def tick? (r : Relay) : Option Relay :=
  if r.isIdle && r.isOpen && r.isDue then some r.flushDue else none

/-- The reason given for bytes that were never written. -/
def discardReason : String := "final write failed at shutdown"

def finalFlush (r : Relay) : Relay :=
  if r.transmitter.pending.isEmpty then r
  else
    let r := r.ensureConnected
    r.conclude r.transmitter.flushAll

def discardRest (r : Relay) : Relay :=
  if r.transmitter.pending.isEmpty then r
  else r.report (.discard r.transmitter.pending.length discardReason)

/-- Write out the rest, give the connection up and end. -/
def windUp (r : Relay) : Relay :=
  let r := r.finalFlush
  if r.isServing then
    let r := r.discardRest
    { r with stage := .ended, transmitter := r.transmitter.disconnect }
  else r

/-- The worker's end, once the relay is closed and the queue is empty. -/
def finish? (r : Relay) : Option Relay :=
  if r.isIdle && !r.isOpen then some r.windUp else none

/-- The failures reported so far, and the bytes that connections took. -/
def failures (r : Relay) : List Failure := r.reporter.reported

def bytesTaken (r : Relay) : Nat :=
  (r.transmitter.connections.flatMap Sink.content).length

end Relay
end Telemetry
