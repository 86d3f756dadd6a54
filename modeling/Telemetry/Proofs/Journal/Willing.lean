import Telemetry.Proofs.Journal.Record
/-!
A journal on a sink that never fails.

Such a sink may take any part of what it is offered that is not empty, and it may interrupt a write,
which is then made again. No call to the journal fails, and after it is closed the sink has the
lines of all its events.
-/

namespace Telemetry

/-- All items of a feed, the one that is repeated among them. -/
def Feed.All {α : Type} (p : α → Prop) (f : Feed α) : Prop := (∀ a ∈ f.acts, p a) ∧ p f.rest

theorem Feed.All.next {α : Type} {p : α → Prop} {f : Feed α} (h : f.All p) :
    p f.next.1 ∧ f.next.2.All p := by
  obtain ⟨_ | ⟨a, acts⟩, rest⟩ := f
  · exact ⟨h.2, h⟩
  · exact ⟨h.1 a List.mem_cons_self, fun b hb => h.1 b (List.mem_cons_of_mem a hb), h.2⟩

/-- The answer takes something, or it is an interruption. -/
def WriteAnswer.isWilling : WriteAnswer → Bool
  | .take none => true
  | .take (some limit) => limit != 0
  | .fail cause => cause.isInterrupted

namespace Sink

/-- No call to the sink fails for good. -/
structure Willing (s : Sink) : Prop where
  writes : s.writes.All fun a => a.answer.isWilling = true
  flushes : s.flushes.All fun a => a.answer = none

theorem Willing.write {s : Sink} (h : s.Willing) (data : Bytes) : (s.write data).2.Willing :=
  ⟨h.writes.next.2, h.flushes⟩

theorem Willing.taken {s : Sink} (h : s.Willing) {data : Bytes} (hd : data ≠ []) {n : Nat}
    (hn : (s.write data).1.answer = .ok n) : n ≠ 0 := by
  have hw := h.writes.next.1
  have hl : data.length ≠ 0 := fun hz => hd (List.length_eq_zero_iff.1 hz)
  simp only [Sink.write, WriteAnswer.apply] at hn
  split at hn
  · cases hn
    exact hl
  · next limit ha =>
    simp only [ha, WriteAnswer.isWilling, bne_iff_ne] at hw
    cases hn
    omega
  · cases hn

theorem Willing.interrupted {s : Sink} (h : s.Willing) {data : Bytes} {e : IoError}
    (he : (s.write data).1.answer = .error e) : e.isInterrupted = true := by
  have hw := h.writes.next.1
  simp only [Sink.write, WriteAnswer.apply] at he
  split at he
  · cases he
  · cases he
  · next cause ha =>
    simp only [ha, WriteAnswer.isWilling] at hw
    cases he
    exact hw

theorem Willing.flush {s : Sink} (h : s.Willing) : s.flush.1.answer = none ∧ s.flush.2.Willing :=
  ⟨h.flushes.next.1, h.writes, h.flushes.next.2⟩

/-- A sink that never fails takes all that it is offered. -/
theorem Willing.drain {s : Sink} (h : s.Willing) (stuck : IoError) (data : Bytes) :
    (s.drain stuck data).fault = none ∧ (s.drain stuck data).sink.Willing := by
  fun_induction Sink.drain stuck data s with
  | case1 data s hd => exact ⟨rfl, h⟩
  | case2 data s hd h2 => exact absurd rfl (h.taken (by simpa using hd) h2)
  | case3 data s hd n h2 hn ih => exact ih (h.write data)
  | case4 data s hd e h2 hi ih => exact ih (h.write data)
  | case5 data s hd e h2 hi => exact absurd (h.interrupted h2) hi

end Sink

/-! ## The buffer -/

namespace Buffered

/-- The operation has not failed, nor will another one. -/
def Succeeds (r : Option IoError × Buffered) : Prop := r.1 = none ∧ r.2.sink.Willing

variable {b : Buffered}

theorem succeeds_empty (h : b.sink.Willing) : Succeeds b.empty := h.drain stuckEmptying b.held

theorem succeeds_place (h : b.sink.Willing) (data : Bytes) : Succeeds (b.place data) := by
  unfold place
  split
  · exact h.drain stuckWriting data
  · exact ⟨rfl, h⟩

theorem succeeds_put (h : b.sink.Willing) (data : Bytes) : Succeeds (b.put data) := by
  obtain ⟨he, hw⟩ := succeeds_empty h
  unfold put
  split
  · exact ⟨rfl, h⟩
  · split
    · split
      · next b' hb =>
        rw [hb] at hw
        exact succeeds_place hw data
      · next e b' hb =>
        rw [hb] at he
        cases he
    · exact succeeds_place h data

theorem succeeds_putAll (h : b.sink.Willing) (pieces : List Bytes) : Succeeds (b.putAll pieces) := by
  induction pieces generalizing b with
  | nil => exact ⟨rfl, h⟩
  | cons piece pieces ih =>
    obtain ⟨hp, hw⟩ := succeeds_put h piece
    unfold putAll
    split
    · next b' hb =>
      rw [hb] at hw
      exact ih hw
    · next e b' hb =>
      rw [hb] at hp
      cases hp

theorem succeeds_flush (h : b.sink.Willing) : Succeeds b.flush := by
  obtain ⟨he, hw⟩ := succeeds_empty h
  unfold flush
  split
  · next b' hb =>
    rw [hb] at hw
    exact hw.flush
  · next e b' hb =>
    rw [hb] at he
    cases he

end Buffered

/-! ## The journal -/

namespace Journal

variable {cut : Cut}

theorem willing_answerBy (cut : Cut) {j : Journal} (h : j.out.sink.Willing) (c : Call) :
    (j.answerBy cut c).1 = .ok () ∧ (j.answerBy cut c).2.out.sink.Willing := by
  cases c with
  | event e =>
    obtain ⟨hf, hw⟩ := Buffered.succeeds_putAll h (cut.pieces e)
    refine ⟨?_, hw⟩
    show outcome (j.out.putAll (cut.pieces e)).1 = .ok ()
    rw [hf]
    rfl
  | close =>
    obtain ⟨hf, hw⟩ := Buffered.succeeds_flush h
    refine ⟨?_, hw⟩
    show outcome j.out.flush.1 = .ok ()
    rw [hf]
    rfl

theorem run_willing {sink : Sink} (hs : sink.Willing) {past : List (Journal × Call)} {j : Journal}
    (h : Run (stepBy cut) (ofSink sink) past j) :
    (∀ x ∈ past, (x.1.answerBy cut x.2).1 = .ok ()) ∧ j.out.sink.Willing := by
  induction h with
  | start => exact ⟨fun x hx => absurd hx List.not_mem_nil, hs⟩
  | @next past u v c before enabled ih =>
    obtain ⟨hok, hw⟩ := willing_answerBy cut ih.2 c
    cases enabled
    refine ⟨fun x hx => ?_, hw⟩
    rcases List.mem_append.1 hx with hx | hx
    · exact ih.1 x hx
    · rw [List.mem_singleton.1 hx]
      exact hok

/-- The bytes that a call adds if it succeeds. -/
def recorded : Call → Bytes
  | .event e => lineBytes e
  | .close => []

theorem addedBy_ok {x : Journal × Call} (h : (x.1.answerBy cut x.2).1 = .ok ()) :
    addedBy cut x = recorded x.2 := by
  have hr := (x.1.bytes_answerBy cut x.2).1
  obtain ⟨j, c⟩ := x
  generalize addedBy cut (j, c) = part at hr ⊢
  rw [h] at hr
  cases hr with
  | whole e => rfl
  | close => rfl

theorem flatMap_addedBy {past : List (Journal × Call)}
    (h : ∀ x ∈ past, (x.1.answerBy cut x.2).1 = .ok ()) :
    past.flatMap (addedBy cut) = (past.map Prod.snd).flatMap recorded := by
  induction past with
  | nil => rfl
  | cons x past ih =>
    rw [List.forall_mem_cons] at h
    rw [List.flatMap_cons, List.map_cons, List.flatMap_cons, addedBy_ok h.1, ih h.2]

/-- Once closing succeeds, the sink has all that was recorded. -/
theorem content_closed {sink : Sink} {past : List (Journal × Call)} {j : Journal}
    (h : Run (stepBy cut) (ofSink sink) past j) (hc : j.close.1 = .ok ()) :
    j.close.2.out.sink.content = sink.content ++ past.flatMap (addedBy cut) := by
  have hheld : j.close.2.out.held = [] := Buffered.held_flush (outcome_eq_ok hc)
  have hbytes : j.close.2.bytes = j.bytes := j.out.bytes_flush
  rw [← (run_bytesBy h).2, ← hbytes]
  show _ = j.close.2.out.sink.content ++ j.close.2.out.held
  rw [hheld, List.append_nil]

/-- The calls that record events, and closing as the last one. -/
def session (es : List Event) : List Call := es.map .event ++ [.close]

theorem content_session {sink : Sink} (hs : sink.Willing) {es : List Event}
    {past : List (Journal × Call)} {j : Journal} (h : Run (stepBy cut) (ofSink sink) past j)
    (hm : past.map Prod.snd = session es) :
    j.out.sink.content = sink.content ++ es.flatMap lineBytes := by
  have hok := (run_willing hs h).1
  obtain ⟨former, final, rfl, hformer, hfinal⟩ := List.map_eq_append_iff.1 hm
  obtain ⟨⟨k, c⟩, rfl, hc⟩ := List.map_eq_singleton_iff.1 hfinal
  cases hc
  have hlast := h.last
  cases hlast
  rw [answerBy, content_closed (h.before rfl) (hok (k, .close) (by simp)),
    flatMap_addedBy fun x hx => hok x (List.mem_append_left _ hx), hformer, List.flatMap_map]
  rfl

end Journal
end Telemetry
