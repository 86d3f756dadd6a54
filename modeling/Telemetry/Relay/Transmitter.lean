import Telemetry.Relay.Codec
import Telemetry.Relay.Counters
import Telemetry.Relay.Transfer
/-!
Encoded bytes on their way to a connection.

Bytes are gathered until there are enough of them for a flush. When an event's bytes make them
enough, only the bytes before it are flushed, unless there were none; the event's own bytes wait for
the next flush. A flush that fails gives its connection up and keeps its bytes for the next one.
-/

namespace Telemetry

/-- How an operation of the worker ended. A crash takes the worker down. -/
inductive Verdict where
  | done
  | failed (failure : Failure)
  | crashed

structure Transmitter where
  /-- So many gathered bytes are enough for a flush. -/
  flushSize : Nat
  timeout : Duration
  pending : Bytes
  connection : Option Sink
  /-- The connections given up, in the order in which they were made. -/
  retired : List Sink
  counters : Counters
  clock : Clock

namespace Transmitter

def start (flushSize : Nat) (timeout : Duration) (clock : Clock) : Transmitter :=
  ⟨flushSize, timeout, [], none, [], .zero, clock⟩

/-- All connections, in the order in which they were made. -/
def connections (t : Transmitter) : List Sink := t.retired ++ t.connection.toList

def disconnect (t : Transmitter) : Transmitter :=
  { t with connection := none, retired := t.retired ++ (t.connection.map Sink.drop).toList }

def connect (t : Transmitter) (s : Sink) : Transmitter :=
  { t.disconnect with connection := some s }

/-- Offer the first `n` bytes before a deadline and flush the connection behind them. -/
def send (t : Transmitter) (s : Sink) (n : Nat) (deadline : Moment) (clock : Clock) :
    Transferred :=
  let sent := s.transfer deadline (t.pending.take n) clock
  match sent.fault with
  | some _ => sent
  | none =>
    let flushed := sent.connection.flush
    ⟨flushed.1.answer, flushed.2, sent.clock.pass flushed.1.delay⟩

/-- Flush the first `n` bytes. Without a connection, or with nothing to flush, nothing is done. A
deadline that no clock can show is a crash. -/
def flush (t : Transmitter) (n : Nat) : Verdict × Transmitter :=
  match t.connection with
  | none => (.done, t)
  | some s =>
    if n = 0 then (.done, t)
    else
      let clock := t.clock.read
      match Moment.after? clock.now t.timeout with
      | none => (.crashed, { t with clock })
      | some deadline =>
        let sent := t.send s n deadline clock
        let t := { t with connection := some sent.connection, clock := sent.clock }
        match sent.fault with
        | none =>
          (.done, { t with pending := t.pending.drop n, counters := t.counters.addFlush n })
        | some e =>
          (.failed (.write n e), { t.disconnect with counters := t.counters.addWriteFailed })

def flushAll (t : Transmitter) : Verdict × Transmitter := t.flush t.pending.length

/-- How many bytes to flush when an event's bytes have made them enough. -/
def due (before after : Nat) : Nat := if before = 0 then after else before

/-- Gather the bytes of an encoded event, and flush if they are enough. -/
def write (t : Transmitter) (name : String) (encoded : Encoded) : Verdict × Transmitter :=
  let gathered := { t with pending := t.pending ++ encoded.bytes }
  match encoded with
  | .crashed => (.crashed, t)
  | .failed _ cause =>
    (.failed (.encode name cause),
      { gathered with counters := gathered.counters.addEncodeFailed })
  | .done _ =>
    if gathered.pending.length < t.flushSize then (.done, gathered)
    else gathered.flush (due t.pending.length gathered.pending.length)

end Transmitter
end Telemetry
