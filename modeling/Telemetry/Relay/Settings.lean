import Telemetry.Relay.Basic
/-!
Settings of a relay.

A size or span of zero and an empty thread name stand for the default. Defaults are filled in when a
relay is made, so settings read from different places can be combined before that.
-/

namespace Telemetry

structure Settings where
  codec : Codec
  network : String
  address : String
  bufferSize : Nat
  queueSize : Nat
  retryMin : Duration
  retryMax : Duration
  flushInterval : Duration
  writeTimeout : Duration
  threadName : String

namespace Settings

def ofTarget (codec : Codec) (network address : String) : Settings :=
  ⟨codec, network, address, 0, 0, .zero, .zero, .zero, .zero, ""⟩

def sizeOr (size fallback : Nat) : Nat := if size = 0 then fallback else size

def spanOr (span fallback : Duration) : Duration := if span.isZero then fallback else span

def withDefaults (s : Settings) : Settings :=
  { s with
    bufferSize := sizeOr s.bufferSize 512
    queueSize := sizeOr s.queueSize 1000
    retryMin := spanOr s.retryMin (.ofMillis 100)
    retryMax := spanOr s.retryMax (.ofSeconds 15)
    flushInterval := spanOr s.flushInterval (.ofSeconds 5)
    writeTimeout := spanOr s.writeTimeout (.ofSeconds 1)
    threadName := if s.threadName.isEmpty then "mstats-net" else s.threadName }

end Settings

/-- A relay in an environment given by the reactions of its callback, the answers to its dial calls
and its clock, before its worker has chosen the moment for a flush. Defaults are not filled in. -/
def Relay.unscheduled (s : Settings) (reactions : List Reaction) (answers : List DialAnswer)
    (clock : Clock) : Relay where
  network := s.network
  address := s.address
  backoff := ⟨s.retryMin, s.retryMax⟩
  codec := s.codec
  capacity := s.queueSize
  flushInterval := s.flushInterval
  transmitter := .start s.bufferSize s.writeTimeout clock
  reporter := .ofReactions reactions
  answers := answers
  dials := 0
  pauses := []
  queue := []
  isOpen := true
  stage := .idle
  nextFlush := 0

/-- A relay whose worker has just started. -/
def Relay.start (s : Settings) (reactions : List Reaction) (answers : List DialAnswer)
    (clock : Clock) : Relay :=
  (Relay.unscheduled s reactions answers clock).schedule

/-- The relay that settings stand for. -/
def Relay.ofSettings (s : Settings) (reactions : List Reaction) (answers : List DialAnswer)
    (clock : Clock) : Relay :=
  Relay.start s.withDefaults reactions answers clock

end Telemetry
