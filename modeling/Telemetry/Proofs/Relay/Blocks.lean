import Telemetry.Sink
/-!
What a connection has taken, flush by flush.

A block is what a connection took from one successful flush to the next one. The bytes behind the
last successful flush belong to a flush that is still going on, or that failed.
-/

namespace Telemetry

namespace SinkCall

/-- The call has failed, and not just been interrupted. A write that takes nothing counts. -/
def isFault : SinkCall → Bool
  | .limit _ fault => fault.isSome
  | .write _ (.ok n) => n = 0
  | .write _ (.error e) => !e.isInterrupted
  | .flush fault => fault.isSome
  | .drop => false

def isDrop : SinkCall → Bool
  | .drop => true
  | _ => false

end SinkCall

namespace Sink

/-- The blocks and the bytes behind the last of them, after one more call. -/
def extend (call : SinkCall) (p : List Bytes × Bytes) : List Bytes × Bytes :=
  match call with
  | .flush none => (p.1 ++ [p.2], [])
  | call => (p.1, p.2 ++ call.taken)

/-- The blocks and the bytes behind the last of them, in a record of calls, the latest first. -/
def split (past : List SinkCall) : List Bytes × Bytes := past.foldr extend ([], [])

def blocks (s : Sink) : List Bytes := (split s.past).1

def unflushed (s : Sink) : Bytes := (split s.past).2

/-- No call has failed, and the connection is still in use. -/
def Sound (s : Sink) : Prop := ∀ c ∈ s.past, c.isFault = false ∧ c.isDrop = false

/-- At most the latest call has failed, and the connection is still in use. -/
def Strained (s : Sink) : Prop :=
  (∀ c ∈ s.past, c.isDrop = false) ∧ ∀ c ∈ s.past.tail, c.isFault = false

/-- The latest call gave the connection up, and at most the call before it had failed. -/
def GivenUp (s : Sink) : Prop :=
  ∃ past, s.past = .drop :: past ∧ (∀ c ∈ past, c.isDrop = false) ∧
    ∀ c ∈ past.tail, c.isFault = false

theorem extend_flatten (call : SinkCall) (p : List Bytes × Bytes) :
    (extend call p).1.flatten ++ (extend call p).2 = p.1.flatten ++ p.2 ++ call.taken := by
  unfold extend
  split
  · simp [SinkCall.taken]
  · rw [List.append_assoc]

theorem split_flatten (past : List SinkCall) :
    (split past).1.flatten ++ (split past).2 = past.reverse.flatMap SinkCall.taken := by
  induction past with
  | nil => rfl
  | cons call past ih =>
      rw [List.reverse_cons, List.flatMap_append, ← ih, List.flatMap_singleton]
      exact extend_flatten call (split past)

theorem content_eq (s : Sink) : s.content = s.blocks.flatten ++ s.unflushed :=
  (split_flatten s.past).symm

theorem blocks_of_past_nil {s : Sink} (h : s.past = []) : s.blocks = [] := by
  rw [blocks, h]
  rfl

theorem unflushed_of_past_nil {s : Sink} (h : s.past = []) : s.unflushed = [] := by
  rw [unflushed, h]
  rfl

theorem sound_of_past_nil {s : Sink} (h : s.past = []) : s.Sound := by
  intro c hc
  rw [h] at hc
  exact absurd hc List.not_mem_nil

@[simp] theorem blocks_drop (s : Sink) : s.drop.blocks = s.blocks := rfl

@[simp] theorem unflushed_drop (s : Sink) : s.drop.unflushed = s.unflushed :=
  List.append_nil _

@[simp] theorem blocks_setLimit (s : Sink) (n : Nat) : (s.setLimit n).2.blocks = s.blocks := rfl

@[simp] theorem unflushed_setLimit (s : Sink) (n : Nat) :
    (s.setLimit n).2.unflushed = s.unflushed :=
  List.append_nil _

@[simp] theorem blocks_write (s : Sink) (data : Bytes) : (s.write data).2.blocks = s.blocks := rfl

theorem unflushed_write_ok {s : Sink} {data : Bytes} {n : Nat}
    (h : (s.write data).1.answer = .ok n) :
    (s.write data).2.unflushed = s.unflushed ++ data.take n := by
  show s.unflushed ++ SinkCall.taken (.write data (s.write data).1.answer) = _
  rw [h]
  rfl

theorem unflushed_write_error {s : Sink} {data : Bytes} {e : IoError}
    (h : (s.write data).1.answer = .error e) :
    (s.write data).2.unflushed = s.unflushed := by
  show s.unflushed ++ SinkCall.taken (.write data (s.write data).1.answer) = _
  rw [h]
  exact List.append_nil _

theorem split_flush_none {s : Sink} (h : s.flush.1.answer = none) :
    s.flush.2.blocks = s.blocks ++ [s.unflushed] ∧ s.flush.2.unflushed = [] := by
  have hp : split s.flush.2.past = extend (.flush s.flush.1.answer) (split s.past) := rfl
  rw [h] at hp
  unfold blocks unflushed
  rw [hp]
  exact ⟨rfl, rfl⟩

theorem split_flush_some {s : Sink} {e : IoError} (h : s.flush.1.answer = some e) :
    s.flush.2.blocks = s.blocks ∧ s.flush.2.unflushed = s.unflushed := by
  have hp : split s.flush.2.past = extend (.flush s.flush.1.answer) (split s.past) := rfl
  rw [h] at hp
  unfold blocks unflushed
  rw [hp]
  exact ⟨rfl, List.append_nil _⟩

/-! ## Failed calls -/

theorem Sound.strained {s : Sink} (h : s.Sound) : s.Strained :=
  ⟨fun c hc => (h c hc).2, fun c hc => (h c (List.mem_of_mem_tail hc)).1⟩

/-- A further call keeps a connection sound if it does not fail, and strains it at most. -/
theorem Sound.after {s t : Sink} (h : s.Sound) {call : SinkCall} (hp : t.past = call :: s.past)
    (hf : call.isFault = false) (hd : call.isDrop = false) : t.Sound := by
  intro c hc
  rw [hp] at hc
  rcases List.mem_cons.1 hc with rfl | hc
  · exact ⟨hf, hd⟩
  · exact h c hc

theorem Sound.strained_after {s t : Sink} (h : s.Sound) {call : SinkCall}
    (hp : t.past = call :: s.past) (hd : call.isDrop = false) : t.Strained := by
  constructor
  · intro c hc
    rw [hp] at hc
    rcases List.mem_cons.1 hc with rfl | hc
    · exact hd
    · exact (h c hc).2
  · intro c hc
    rw [hp] at hc
    exact (h c hc).1

theorem Strained.givenUp_drop {s : Sink} (h : s.Strained) : s.drop.GivenUp :=
  ⟨s.past, rfl, h.1, h.2⟩

end Sink
end Telemetry
