import Telemetry.Bytes
import Telemetry.Duration
import Telemetry.Failure
/-!
Byte streams that may be slow, accept a part of what is written, or fail.

A `Sink` answers each kind of call from a feed: the listed answers one after the other, then one
answer for ever. It keeps a record of every call with its answer. An interrupted write may be made
again at once, so the answer that a sink repeats for ever is never an interruption; every other
feed is allowed, which leaves any finite history possible.
-/

namespace Telemetry

/-- Listed items, followed by one item for ever. -/
structure Feed (α : Type) where
  acts : List α
  rest : α
  deriving DecidableEq, Repr

namespace Feed

def constant {α : Type} (a : α) : Feed α := ⟨[], a⟩

def next {α : Type} (f : Feed α) : α × Feed α :=
  match f.acts with
  | [] => (f.rest, f)
  | a :: acts => (a, ⟨acts, f.rest⟩)

end Feed

/-- An answer and the nanoseconds that pass before it is given. -/
structure Act (α : Type) where
  delay : Nat
  answer : α
  deriving DecidableEq, Repr

/-- How a sink means to answer a write: by taking at most so many bytes, or all of them, or by
failing. -/
inductive WriteAnswer where
  | take (limit : Option Nat)
  | fail (cause : IoError)
  deriving DecidableEq, Repr

namespace WriteAnswer

def isInterrupted : WriteAnswer → Bool
  | .take _ => false
  | .fail cause => cause.isInterrupted

/-- The number of bytes of `data` that are taken, or the error. -/
def apply (a : WriteAnswer) (data : Bytes) : Except IoError Nat :=
  match a with
  | .take none => .ok data.length
  | .take (some limit) => .ok (min limit data.length)
  | .fail cause => .error cause

end WriteAnswer

inductive SinkCall where
  | limit (nanos : Nat) (fault : Option IoError)
  | write (offered : Bytes) (answer : Except IoError Nat)
  | flush (fault : Option IoError)
  | drop

namespace SinkCall

def taken : SinkCall → Bytes
  | .write offered (.ok n) => offered.take n
  | _ => []

end SinkCall

structure Sink where
  writes : Feed (Act WriteAnswer)
  flushes : Feed (Act (Option IoError))
  limits : Feed (Act (Option IoError))
  /-- The calls so far, the latest first. -/
  past : List SinkCall
  settles : writes.rest.answer.isInterrupted = false

namespace Sink

/-- A sink that takes everything at once. -/
def ideal : Sink where
  writes := .constant ⟨0, .take none⟩
  flushes := .constant ⟨0, none⟩
  limits := .constant ⟨0, none⟩
  past := []
  settles := rfl

/-- The sink as one that was just opened: it has not been called yet. -/
def opened (s : Sink) : Sink := { s with past := [] }

/-- The sink with these feeds, unless it would be interrupted for ever. -/
def ofFeeds? (writes : Feed (Act WriteAnswer)) (flushes limits : Feed (Act (Option IoError))) :
    Option Sink :=
  if h : writes.rest.answer.isInterrupted = false then some ⟨writes, flushes, limits, [], h⟩
  else none

def log (s : Sink) : List SinkCall := s.past.reverse

def content (s : Sink) : Bytes := s.log.flatMap SinkCall.taken

def record (s : Sink) (call : SinkCall) : Sink := { s with past := call :: s.past }

/-- Bound the time that the following write may take. -/
def setLimit (s : Sink) (nanos : Nat) : Act (Option IoError) × Sink :=
  let (act, limits) := s.limits.next
  (act, { s with limits, past := .limit nanos act.answer :: s.past })

def flush (s : Sink) : Act (Option IoError) × Sink :=
  let (act, flushes) := s.flushes.next
  (act, { s with flushes, past := .flush act.answer :: s.past })

theorem settles_next (s : Sink) :
    s.writes.next.2.rest.answer.isInterrupted = false := by
  unfold Feed.next
  split <;> exact s.settles

/-- Offer bytes. The answer is how many of them were taken. -/
def write (s : Sink) (data : Bytes) : Act (Except IoError Nat) × Sink :=
  let answer := s.writes.next.1.answer.apply data
  (⟨s.writes.next.1.delay, answer⟩,
    { s with
      writes := s.writes.next.2
      past := .write data answer :: s.past
      settles := s.settles_next })

def drop (s : Sink) : Sink := s.record .drop

/-- What is left of a sink's listed answers bounds how often it can still be interrupted. -/
def patience (s : Sink) : Nat := s.writes.acts.length

@[simp] theorem log_record (s : Sink) (c : SinkCall) : (s.record c).log = s.log ++ [c] := by
  simp [log, record]

@[simp] theorem log_write (s : Sink) (data : Bytes) :
    (s.write data).2.log = s.log ++ [.write data (s.write data).1.answer] := by
  simp [log, write]

@[simp] theorem log_flush (s : Sink) : s.flush.2.log = s.log ++ [.flush s.flush.1.answer] := by
  simp [log, flush]

@[simp] theorem log_setLimit (s : Sink) (n : Nat) :
    (s.setLimit n).2.log = s.log ++ [.limit n (s.setLimit n).1.answer] := by
  simp [log, setLimit]

theorem content_write (s : Sink) (data : Bytes) :
    (s.write data).2.content =
      s.content ++ SinkCall.taken (.write data (s.write data).1.answer) := by
  simp [content]

@[simp] theorem content_flush (s : Sink) : s.flush.2.content = s.content := by
  simp [content, SinkCall.taken]

@[simp] theorem content_setLimit (s : Sink) (n : Nat) : (s.setLimit n).2.content = s.content := by
  simp [content, SinkCall.taken]

@[simp] theorem content_drop (s : Sink) : s.drop.content = s.content := by
  simp [content, drop, SinkCall.taken]

@[simp] theorem patience_flush (s : Sink) : s.flush.2.patience = s.patience := rfl

@[simp] theorem patience_setLimit (s : Sink) (n : Nat) : (s.setLimit n).2.patience = s.patience :=
  rfl

theorem patience_write_le (s : Sink) (data : Bytes) : (s.write data).2.patience ≤ s.patience := by
  simp only [patience, write, Feed.next]
  split <;> simp_all

theorem write_le {s : Sink} {data : Bytes} {n : Nat} (h : (s.write data).1.answer = .ok n) :
    n ≤ data.length := by
  simp only [write, WriteAnswer.apply] at h
  split at h <;> simp only [Except.ok.injEq, reduceCtorEq] at h <;> omega

/-- An interruption uses up a listed answer. -/
theorem patience_write_lt {s : Sink} {data : Bytes} {e : IoError}
    (h : (s.write data).1.answer = .error e) (hi : e.isInterrupted = true) :
    (s.write data).2.patience < s.patience := by
  have hs := s.settles
  simp only [write, WriteAnswer.apply, Feed.next] at h
  simp only [patience, write, Feed.next]
  cases hw : s.writes.acts with
  | nil =>
    simp only [hw] at h
    split at h
    · simp at h
    · simp at h
    · rename_i hc
      simp only [Except.error.injEq] at h
      subst h
      simp only [hc, WriteAnswer.isInterrupted] at hs
      simp [hs] at hi
  | cons a acts => simp

end Sink
end Telemetry
