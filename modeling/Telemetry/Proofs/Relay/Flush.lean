import Telemetry.Proofs.Relay.Blocks
import Telemetry.Relay.Transmitter
/-!
What one flush can do.

A flush does nothing, ends a block on its connection, or gives the connection up with a part of the
block taken; or no clock can show its deadline, and the worker goes down with everything kept.
Nothing else is used about a flush by what follows: `flush_outcome` lists these four outcomes with
all that they leave behind.
-/

namespace Telemetry

/-- What a transfer of `data` over a connection leaves. -/
structure Sink.Transfers (s : Sink) (data : Bytes) (clock : Clock) (r : Transferred) : Prop where
  blocks : r.connection.blocks = s.blocks
  strained : s.Sound → r.connection.Strained
  time : clock.now ≤ r.clock.now
  /-- Without a fault all bytes were taken, by calls that did not fail. -/
  whole : r.fault = none →
    r.connection.unflushed = s.unflushed ++ data ∧ (s.Sound → r.connection.Sound)
  part : ∃ taken, taken <+: data ∧ r.connection.unflushed = s.unflushed ++ taken

namespace Sink

theorem sound_setLimit {s : Sink} (h : s.Sound) {n : Nat}
    (ha : (s.setLimit n).1.answer = none) : (s.setLimit n).2.Sound := by
  have hf : (SinkCall.limit n (s.setLimit n).1.answer).isFault = false := by
    rw [ha]
    rfl
  exact h.after rfl hf rfl

theorem sound_write_ok {s : Sink} (h : s.Sound) {data : Bytes} {n : Nat}
    (ha : (s.write data).1.answer = .ok n) (hn : n ≠ 0) : (s.write data).2.Sound := by
  have hf : (SinkCall.write data (s.write data).1.answer).isFault = false := by
    rw [ha]
    exact decide_eq_false hn
  exact h.after rfl hf rfl

theorem sound_write_interrupted {s : Sink} (h : s.Sound) {data : Bytes} {e : IoError}
    (ha : (s.write data).1.answer = .error e) (he : e.isInterrupted = true) :
    (s.write data).2.Sound := by
  have hf : (SinkCall.write data (s.write data).1.answer).isFault = false := by
    rw [ha, SinkCall.isFault, he]
    rfl
  exact h.after rfl hf rfl

theorem sound_flush {s : Sink} (h : s.Sound) (ha : s.flush.1.answer = none) :
    s.flush.2.Sound := by
  have hf : (SinkCall.flush s.flush.1.answer).isFault = false := by
    rw [ha]
    rfl
  exact h.after rfl hf rfl

/-- A transfer that stops with a fault before it has moved anything. -/
theorem Transfers.stopped {s t : Sink} {data : Bytes} {clock later : Clock} {e : IoError}
    (hb : t.blocks = s.blocks) (hu : t.unflushed = s.unflushed) (ht : s.Sound → t.Strained)
    (hl : clock.now ≤ later.now) : s.Transfers data clock ⟨some e, t, later⟩ where
  blocks := hb
  strained := ht
  time := hl
  whole := fun h => nomatch h
  part := ⟨[], List.nil_prefix, by rw [List.append_nil]; exact hu⟩

/-- A transfer that goes on after a call took the first bytes. -/
theorem Transfers.continued {s t : Sink} {front data : Bytes} {clock later : Clock}
    {r : Transferred} (h : t.Transfers data later r) (hb : t.blocks = s.blocks)
    (hu : t.unflushed = s.unflushed ++ front) (ht : s.Sound → t.Sound)
    (hl : clock.now ≤ later.now) : s.Transfers (front ++ data) clock r where
  blocks := h.blocks.trans hb
  strained := fun hs => h.strained (ht hs)
  time := Nat.le_trans hl h.time
  whole := fun hf => by
    obtain ⟨hw, hs⟩ := h.whole hf
    rw [hw, hu, List.append_assoc]
    exact ⟨rfl, fun hss => hs (ht hss)⟩
  part := by
    obtain ⟨taken, hp, hq⟩ := h.part
    refine ⟨front ++ taken, (List.prefix_append_right_inj front).2 hp, ?_⟩
    rw [hq, hu, List.append_assoc]

theorem transfers (deadline : Moment) (data : Bytes) (s : Sink) (clock : Clock) :
    s.Transfers data clock (s.transfer deadline data clock) := by
  -- One case for each way a round ends. A round that took bytes goes on with the rest as its data, one
  -- that was interrupted with the same data, so there the front is empty.
  fun_induction Sink.transfer deadline data s clock with
  | case1 data s clock hd =>
    have hd : data = [] := List.isEmpty_iff.1 hd
    exact ⟨rfl, Sound.strained, Nat.le_refl _, fun _ => ⟨by rw [hd, List.append_nil], id⟩,
      [], List.nil_prefix, (List.append_nil _).symm⟩
  | case2 data s clock hd late =>
    exact Transfers.stopped rfl rfl Sound.strained clock.le_read
  | case3 data s clock hd late limited bounded e ha =>
    have hl : clock.now ≤ bounded.now := Nat.le_trans clock.le_read (Nat.le_add_right _ _)
    exact Transfers.stopped rfl (unflushed_setLimit s _) (fun hs => hs.strained_after rfl rfl) hl
  | case4 data s clock hd late limited bounded ha sent later hn =>
    have hl : clock.now ≤ later.now :=
      Nat.le_trans clock.le_read (Nat.le_trans (Nat.le_add_right _ _) (Nat.le_add_right _ _))
    have hu : sent.2.unflushed = s.unflushed := by
      rw [unflushed_write_ok hn, List.take_zero, List.append_nil]
      exact unflushed_setLimit s _
    exact Transfers.stopped rfl hu (fun hs => (sound_setLimit hs ha).strained_after rfl rfl) hl
  | case5 data s clock hd late limited bounded ha sent later n hn hpos ih =>
    have hl : clock.now ≤ later.now :=
      Nat.le_trans clock.le_read (Nat.le_trans (Nat.le_add_right _ _) (Nat.le_add_right _ _))
    have hu : sent.2.unflushed = s.unflushed ++ data.take n := by
      rw [unflushed_write_ok hn]
      exact congrArg (· ++ data.take n) (unflushed_setLimit s _)
    have hr := Transfers.continued (s := s) ih rfl hu
      (fun hs => sound_write_ok (sound_setLimit hs ha) hn hpos) hl
    rw [List.take_append_drop] at hr
    exact hr
  | case6 data s clock hd late limited bounded ha sent later e he hi ih =>
    have hl : clock.now ≤ later.now :=
      Nat.le_trans clock.le_read (Nat.le_trans (Nat.le_add_right _ _) (Nat.le_add_right _ _))
    have hu : sent.2.unflushed = s.unflushed ++ [] := by
      rw [unflushed_write_error he, List.append_nil]
      exact unflushed_setLimit s _
    exact Transfers.continued (s := s) ih rfl hu
      (fun hs => sound_write_interrupted (sound_setLimit hs ha) he hi) hl
  | case7 data s clock hd late limited bounded ha sent later e he hi =>
    have hl : clock.now ≤ later.now :=
      Nat.le_trans clock.le_read (Nat.le_trans (Nat.le_add_right _ _) (Nat.le_add_right _ _))
    have hu : sent.2.unflushed = s.unflushed := by
      rw [unflushed_write_error he]
      exact unflushed_setLimit s _
    exact Transfers.stopped rfl hu (fun hs => (sound_setLimit hs ha).strained_after rfl rfl) hl

end Sink

namespace Transmitter

/-- The outcomes of a flush of the first `n` bytes. -/
inductive FlushOutcome (t : Transmitter) (n : Nat) : Verdict × Transmitter → Prop where
  | idle (h : t.connection = none ∨ n = 0) : FlushOutcome t n (.done, t)
  | late {s : Sink} (clock : Clock) (open_ : t.connection = some s)
      (time : t.clock.now ≤ clock.now) (late : Moment.after? clock.now t.timeout = none) :
      FlushOutcome t n (.crashed, { t with clock })
  | flushed {s : Sink} (s' : Sink) (clock : Clock) (open_ : t.connection = some s)
      (time : t.clock.now ≤ clock.now)
      (blocks : s'.blocks = s.blocks ++ [s.unflushed ++ t.pending.take n])
      (unflushed : s'.unflushed = []) (sound : s.Sound → s'.Sound) :
      FlushOutcome t n
        (.done, { t with
          pending := t.pending.drop n
          connection := some s'
          clock
          counters := t.counters.addFlush n })
  | failed {s : Sink} (s' : Sink) (clock : Clock) (e : IoError) (open_ : t.connection = some s)
      (time : t.clock.now ≤ clock.now) (blocks : s'.blocks = s.blocks) (taken : Bytes)
      (part : taken <+: t.pending.take n) (unflushed : s'.unflushed = s.unflushed ++ taken)
      (strained : s.Sound → s'.Strained) :
      FlushOutcome t n
        (.failed (.write n e), { t with
          connection := none
          retired := t.retired ++ [s'.drop]
          clock
          counters := t.counters.addWriteFailed })

/-- What sending `data` over a connection leaves, the flush of the connection included. -/
structure Sends (s : Sink) (data : Bytes) (clock : Clock) (r : Transferred) : Prop where
  time : clock.now ≤ r.clock.now
  done : r.fault = none →
    r.connection.blocks = s.blocks ++ [s.unflushed ++ data] ∧
      r.connection.unflushed = [] ∧ (s.Sound → r.connection.Sound)
  failed : ∀ e, r.fault = some e →
    r.connection.blocks = s.blocks ∧ (s.Sound → r.connection.Strained) ∧
      ∃ taken, taken <+: data ∧ r.connection.unflushed = s.unflushed ++ taken

theorem sends (t : Transmitter) (s : Sink) (n : Nat) (deadline : Moment) (clock : Clock) :
    Sends s (t.pending.take n) clock (t.send s n deadline clock) := by
  have h := Sink.transfers deadline (t.pending.take n) s clock
  dsimp only [send]
  split
  · next e hf =>
    exact ⟨h.time, fun hn => absurd (hf.symm.trans hn) (by simp),
      fun _ _ => ⟨h.blocks, h.strained, h.part⟩⟩
  · next hf =>
    obtain ⟨hu, hsound⟩ := h.whole hf
    refine ⟨Nat.le_trans h.time (Nat.le_add_right _ _), fun hn => ?_, fun e he => ?_⟩
    · obtain ⟨hb, hr⟩ := Sink.split_flush_none hn
      exact ⟨by rw [hb, hu, h.blocks], hr, fun hs => Sink.sound_flush (hsound hs) hn⟩
    · obtain ⟨hb, hr⟩ := Sink.split_flush_some he
      exact ⟨hb.trans h.blocks, fun hs => (hsound hs).strained_after rfl rfl,
        t.pending.take n, List.prefix_rfl, hr.trans hu⟩

theorem flush_outcome (t : Transmitter) (n : Nat) : t.FlushOutcome n (t.flush n) := by
  unfold flush
  split
  · next hc => exact .idle (.inl hc)
  · next s hc =>
    by_cases hn : n = 0
    · rw [if_pos hn]
      exact .idle (.inr hn)
    · rw [if_neg hn]
      dsimp only
      split
      · next hd => exact .late _ hc t.clock.le_read hd
      · next deadline hd =>
        have h := sends t s n deadline t.clock.read
        have ht : t.clock.now ≤ (t.send s n deadline t.clock.read).clock.now :=
          Nat.le_trans t.clock.le_read h.time
        split
        · next hf =>
          obtain ⟨hb, hu, hsound⟩ := h.done hf
          exact .flushed _ _ hc ht hb hu hsound
        · next e hf =>
          obtain ⟨hb, hstrained, taken, hp, hu⟩ := h.failed e hf
          exact .failed _ _ e hc ht hb taken hp hu hstrained

end Transmitter
end Telemetry
