import Telemetry.Proofs.Relay.Changes
import Telemetry.Relay.Settings
/-!
Every event that is offered to a relay is accounted for.

An offered event is put into the queue, or it is counted and reported as turned away. What was put
into the queue leaves it in the same order for the encoder, so at any time the accepted events are
those that were handed to the encoder, then the one in the worker's hand, then those in the queue.
-/

namespace Telemetry
namespace Relay

/-- How many failures of a kind were reported so far. -/
def reports (r : Relay) (k : Failure.Kind) : Nat := r.failures.countP fun f => f.kind = k

/-! ## The outcome of one call -/

/-- The event was put into the queue; nothing was reported. -/
structure Accepts (r : Relay) (e : Event) (r' : Relay) : Prop where
  queue : r'.queue = r.queue ++ [e]
  counters : r'.transmitter.counters = r.transmitter.counters.addQueued
  failures : r'.failures = r.failures

/-- The event was turned away, counted once and reported once. -/
structure Refuses (r : Relay) (count : Counters → Counters) (f : Failure) (r' : Relay) : Prop where
  queue : r'.queue = r.queue
  counters : r'.transmitter.counters = count r.transmitter.counters
  failures : r'.failures = r.failures ++ [f]

def RefusesFull (r : Relay) (e : Event) (r' : Relay) : Prop :=
  Refuses r .addQueueFull (.queueFull e.metric.name) r'

def RefusesClosed (r : Relay) (e : Event) (r' : Relay) : Prop :=
  Refuses r .addQueueClosed (.queueClosed e.metric.name) r'

theorem accepts_accept (r : Relay) (e : Event) : Accepts r e (r.accept e) := ⟨rfl, rfl, rfl⟩

theorem refuses_refuseFull (r : Relay) (e : Event) : RefusesFull r e (r.refuseFull e) :=
  ⟨rfl, rfl, rfl⟩

theorem refuses_refuseClosed (r : Relay) (e : Event) : RefusesClosed r e (r.refuseClosed e) :=
  ⟨rfl, rfl, rfl⟩

theorem Accepts.not_refuses {r r' : Relay} {e : Event} {count : Counters → Counters} {f : Failure}
    (h : Accepts r e r') : ¬ Refuses r count f r' := by
  intro k
  have hl := congrArg List.length (k.failures.symm.trans h.failures)
  rw [List.length_append, List.length_singleton] at hl
  omega

theorem RefusesFull.not_refusesClosed {r r' : Relay} {e : Event} (h : RefusesFull r e r') :
    ¬ RefusesClosed r e r' := by
  intro k
  have hf := List.append_cancel_left (h.failures.symm.trans k.failures)
  exact nomatch hf

theorem submit_accepts {r : Relay} (e : Event)
    (h : r.isOpen = true ∧ r.isServing = true ∧ r.isFull = false) :
    Accepts r e (r.submit e) := by
  rw [submit, h.1, offer, h.2.1, h.2.2]
  exact accepts_accept r e

theorem submit_refusesFull {r : Relay} (e : Event)
    (h : r.isOpen = true ∧ r.isServing = true ∧ r.isFull = true) :
    RefusesFull r e (r.submit e) := by
  rw [submit, h.1, offer, h.2.1, h.2.2]
  exact refuses_refuseFull r e

theorem submit_refusesClosed {r : Relay} (e : Event)
    (h : r.isOpen = false ∨ r.isServing = false) : RefusesClosed r e (r.submit e) := by
  unfold submit offer
  cases ho : r.isOpen with
  | false => exact refuses_refuseClosed r e
  | true =>
      have hs : r.isServing = false := by
        rcases h with h | h
        · exact absurd (h.symm.trans ho) Bool.false_ne_true
        · exact h
      rw [hs]
      exact refuses_refuseClosed r e

/-- A call has one outcome, and the state of the relay decides which. -/
theorem submit_outcome (r : Relay) (e : Event) :
    (Accepts r e (r.submit e) ↔ r.isOpen = true ∧ r.isServing = true ∧ r.isFull = false) ∧
    (RefusesFull r e (r.submit e) ↔ r.isOpen = true ∧ r.isServing = true ∧ r.isFull = true) ∧
    (RefusesClosed r e (r.submit e) ↔ r.isOpen = false ∨ r.isServing = false) := by
  have hcases : (r.isOpen = true ∧ r.isServing = true ∧ r.isFull = false) ∨
      (r.isOpen = true ∧ r.isServing = true ∧ r.isFull = true) ∨
      (r.isOpen = false ∨ r.isServing = false) := by
    cases r.isOpen <;> cases r.isServing <;> cases r.isFull <;> decide
  -- One of the three states is given, and it has its outcome; that excludes the two other outcomes.
  refine ⟨⟨fun ha => ?_, submit_accepts e⟩, ⟨fun hf => ?_, submit_refusesFull e⟩,
    fun hc => ?_, submit_refusesClosed e⟩
  · rcases hcases with h | h | h
    · exact h
    · exact absurd (submit_refusesFull e h) ha.not_refuses
    · exact absurd (submit_refusesClosed e h) ha.not_refuses
  · rcases hcases with h | h | h
    · exact absurd hf (submit_accepts e h).not_refuses
    · exact h
    · exact absurd (submit_refusesClosed e h) hf.not_refusesClosed
  · rcases hcases with h | h | h
    · exact absurd hc (submit_accepts e h).not_refuses
    · exact absurd hc (submit_refusesFull e h).not_refusesClosed
    · exact h

/-! ## Counts -/

/-- Every offered event is in one of three counts, and each refusal has its report. -/
structure Tally (offered accepted : List Event) (r : Relay) : Prop where
  queued : r.transmitter.counters.queued = UInt64.ofNat accepted.length
  queueFull : r.transmitter.counters.queueFull = UInt64.ofNat (r.reports .queueFull)
  queueClosed : r.transmitter.counters.queueClosed = UInt64.ofNat (r.reports .queueClosed)
  outcomes : offered.length =
    accepted.length + r.reports .queueFull + r.reports .queueClosed

theorem reports_append {r r' : Relay} {fs : List Failure} (h : r'.failures = r.failures ++ fs)
    (k : Failure.Kind) : r'.reports k = r.reports k + fs.countP fun f => f.kind = k := by
  unfold reports
  rw [h, List.countP_append]

theorem Keeps.reports_eq {r r' : Relay} (h : Keeps r r') {k : Failure.Kind}
    (hk : k = .queueFull ∨ k = .queueClosed) : r'.reports k = r.reports k := by
  obtain ⟨fs, hf, hd⟩ := h.reports
  rw [reports_append hf, Nat.add_eq_left, List.countP_eq_zero]
  intro f hm
  have hn := hd f hm
  rcases hk with rfl | rfl
  · cases f <;> simp_all [Failure.kind, Failure.isDropped]
  · cases f <;> simp_all [Failure.kind, Failure.isDropped]

theorem Tally.keeps {offered accepted : List Event} {r r' : Relay} (h : Tally offered accepted r)
    (k : Keeps r r') : Tally offered accepted r' := by
  have hq : r'.transmitter.counters.queued = r.transmitter.counters.queued :=
    congrArg (·.1) k.admissions
  have hf : r'.transmitter.counters.queueFull = r.transmitter.counters.queueFull :=
    congrArg (·.2.1) k.admissions
  have hc : r'.transmitter.counters.queueClosed = r.transmitter.counters.queueClosed :=
    congrArg (·.2.2) k.admissions
  have rf := k.reports_eq (.inl rfl)
  have rc := k.reports_eq (.inr rfl)
  exact ⟨hq.trans h.queued, by rw [hf, rf, h.queueFull], by rw [hc, rc, h.queueClosed],
    by rw [rf, rc]; exact h.outcomes⟩

theorem Tally.accept {offered accepted : List Event} {r : Relay} (h : Tally offered accepted r)
    (e : Event) : Tally (offered ++ [e]) (accepted ++ [e]) (r.accept e) where
  queued := by
    rw [List.length_append, UInt64.ofNat_add, ← h.queued]
    rfl
  queueFull := h.queueFull
  queueClosed := h.queueClosed
  outcomes := by
    have ho := h.outcomes
    rw [List.length_append, List.length_append, List.length_singleton]
    show _ = accepted.length + 1 + r.reports .queueFull + r.reports .queueClosed
    omega

theorem Tally.refuseFull {offered accepted : List Event} {r : Relay}
    (h : Tally offered accepted r) (e : Event) :
    Tally (offered ++ [e]) accepted (r.refuseFull e) := by
  have hr := reports_append (refuses_refuseFull r e).failures
  have hf : (r.refuseFull e).reports .queueFull = r.reports .queueFull + 1 := hr .queueFull
  have hc : (r.refuseFull e).reports .queueClosed = r.reports .queueClosed := hr .queueClosed
  refine ⟨h.queued, ?_, ?_, ?_⟩
  · rw [hf, UInt64.ofNat_add, ← h.queueFull]
    rfl
  · rw [hc]
    exact h.queueClosed
  · have ho := h.outcomes
    rw [hf, hc, List.length_append, List.length_singleton]
    omega

theorem Tally.refuseClosed {offered accepted : List Event} {r : Relay}
    (h : Tally offered accepted r) (e : Event) :
    Tally (offered ++ [e]) accepted (r.refuseClosed e) := by
  have hr := reports_append (refuses_refuseClosed r e).failures
  have hf : (r.refuseClosed e).reports .queueFull = r.reports .queueFull := hr .queueFull
  have hc : (r.refuseClosed e).reports .queueClosed = r.reports .queueClosed + 1 :=
    hr .queueClosed
  refine ⟨h.queued, ?_, ?_, ?_⟩
  · rw [hf]
    exact h.queueFull
  · rw [hc, UInt64.ofNat_add, ← h.queueClosed]
    rfl
  · have ho := h.outcomes
    rw [hf, hc, List.length_append, List.length_singleton]
    omega

theorem Tally.change {offered accepted offered' accepted' encoded' : List Event} {r r' : Relay}
    (h : Tally offered accepted r) (c : Change r offered' accepted' encoded' r') :
    Tally (offered ++ offered') (accepted ++ accepted') r' := by
  have keep {r' : Relay} (k : Tally offered accepted r') :
      Tally (offered ++ []) (accepted ++ []) r' := by
    rw [List.append_nil, List.append_nil]
    exact k
  cases c with
  | accept e serving room => exact h.accept e
  | refuseFull e serving full =>
      rw [List.append_nil]
      exact h.refuseFull e
  | refuseClosed e =>
      rw [List.append_nil]
      exact h.refuseClosed e
  | handle e holding handled =>
      have hi : Tally offered accepted { r with stage := .idle } :=
        ⟨h.queued, h.queueFull, h.queueClosed, h.outcomes⟩
      exact keep (hi.keeps (works_handle holding handled).keeps)
  | schedule idle => exact keep (h.keeps (works_schedule r).keeps)
  | flush idle => exact keep (h.keeps (works_flushDue r).keeps)
  | windUp idle drained => exact keep (h.keeps (keeps_windUp idle))
  | stay => exact keep h
  | close => exact keep ⟨h.queued, h.queueFull, h.queueClosed, h.outcomes⟩
  | take => exact keep ⟨h.queued, h.queueFull, h.queueClosed, h.outcomes⟩
  | wait => exact keep ⟨h.queued, h.queueFull, h.queueClosed, h.outcomes⟩

/-! ## Order -/

/-- The events on their way from the queue's entrance to the encoder. -/
structure Order (accepted encoded : List Event) (r : Relay) : Prop where
  bounded : r.queue.length ≤ r.capacity
  served : encoded <+: accepted
  whole : r.stage ≠ .crashed → accepted = encoded ++ r.inHand ++ r.queue
  drained : r.isServing = false → r.queue = []
  crashed : r.stage = .crashed → r.Fatal

theorem inHand_congr {r r' : Relay} (h : r'.stage = r.stage) : r'.inHand = r.inHand := by
  unfold inHand
  rw [h]

theorem Order.same {accepted encoded : List Event} {r r' : Relay} (h : Order accepted encoded r)
    (hs : r'.stage = r.stage) (hq : r'.queue = r.queue) (ht : r'.terms = r.terms)
    (hc : r.clock.now ≤ r'.clock.now) : Order accepted encoded r' where
  bounded := by
    rw [hq, capacity_eq ht]
    exact h.bounded
  served := h.served
  whole := fun hn => by
    rw [inHand_congr hs, hq]
    exact h.whole (hs ▸ hn)
  drained := fun hg => by
    rw [isServing_congr hs] at hg
    exact hq.trans (h.drained hg)
  crashed := fun hk => (h.crashed (hs.symm.trans hk)).mono ht hc

theorem Order.works {accepted encoded : List Event} {r r' : Relay} (h : Order accepted encoded r)
    (w : Works r r') : Order accepted encoded r' := by
  rcases w.queue with ⟨hs, hq⟩ | ⟨hs, hq, hf⟩
  · exact h.same hs hq w.terms w.time
  · refine ⟨?_, h.served, fun hn => absurd hs hn, fun _ => hq, fun _ => hf⟩
    rw [hq]
    exact Nat.zero_le _

theorem Order.accept {accepted encoded : List Event} {r : Relay} (h : Order accepted encoded r)
    (e : Event) (hs : r.isServing = true) (hf : r.isFull = false) :
    Order (accepted ++ [e]) encoded (r.accept e) where
  bounded := by
    have hl : r.queue.length < r.capacity := Nat.lt_of_not_le (of_decide_eq_false hf)
    show (r.queue ++ [e]).length ≤ r.capacity
    rw [List.length_append, List.length_singleton]
    exact hl
  served := h.served.trans (List.prefix_append accepted [e])
  whole := fun hn => by
    show accepted ++ [e] = encoded ++ r.inHand ++ (r.queue ++ [e])
    rw [← List.append_assoc, ← h.whole hn]
  drained := fun hg => absurd (hg.symm.trans hs) Bool.false_ne_true
  crashed := h.crashed

theorem Order.take {accepted encoded queue : List Event} {r : Relay} {e : Event}
    (h : Order accepted encoded r) (hs : r.stage = .idle) (hq : r.queue = e :: queue) :
    Order accepted encoded { r with stage := .holding e, queue } where
  bounded := by
    have hb := h.bounded
    rw [hq, List.length_cons] at hb
    exact Nat.le_of_succ_le hb
  served := h.served
  whole := fun _ => by
    have hn : r.stage ≠ .crashed := fun hc => nomatch hs.symm.trans hc
    have hw := h.whole hn
    rw [inHand_idle hs, hq, List.append_nil] at hw
    show accepted = encoded ++ [e] ++ queue
    rw [hw, List.append_assoc, List.singleton_append]
  drained := nofun
  crashed := nofun

theorem Order.handOver {accepted encoded : List Event} {r : Relay} {e : Event}
    (h : Order accepted encoded r) (hs : r.stage = .holding e) :
    Order accepted (encoded ++ [e]) { r with stage := .idle } := by
  have hn : r.stage ≠ .crashed := fun hc => nomatch hs.symm.trans hc
  have hw := h.whole hn
  rw [inHand_holding hs] at hw
  refine ⟨h.bounded, ⟨r.queue, hw.symm⟩, fun _ => ?_, nofun, nofun⟩
  show accepted = encoded ++ [e] ++ [] ++ r.queue
  rw [List.append_nil]
  exact hw

/-- With nothing in hand and nothing in the queue, all accepted events were handed over. -/
theorem Order.drained_idle {accepted encoded : List Event} {r : Relay}
    (h : Order accepted encoded r) (hs : r.stage = .idle) (hq : r.queue = []) :
    accepted = encoded := by
  have hw := h.whole fun hc => nomatch hs.symm.trans hc
  rw [inHand_idle hs, hq, List.append_nil, List.append_nil] at hw
  exact hw

/-- Where nothing was accepted, nothing is in hand and nothing in the queue. -/
theorem Order.whole_nil {r : Relay} (h : Order [] [] r) : [] = [] ++ r.inHand ++ r.queue := by
  by_cases hc : r.stage = .crashed
  · have hg := isServing_crashed hc
    rw [inHand_gone hg, h.drained hg]
    rfl
  · exact h.whole hc

theorem Order.retire {accepted encoded : List Event} {r : Relay} (h : Order accepted encoded r)
    (hs : r.stage = .idle) (hq : r.queue = []) : Order accepted encoded r.retire := by
  have hr : r.retire.queue = [] := (queue_discardRest r).trans hq
  refine ⟨?_, h.served, fun _ => ?_, fun _ => hr, nofun⟩
  · rw [hr]
    exact Nat.zero_le _
  · show accepted = encoded ++ [] ++ r.retire.queue
    rw [hr, List.append_nil, List.append_nil]
    exact h.drained_idle hs hq

theorem Order.change {accepted encoded offered' accepted' encoded' : List Event} {r r' : Relay}
    (h : Order accepted encoded r) (c : Change r offered' accepted' encoded' r') :
    Order (accepted ++ accepted') (encoded ++ encoded') r' := by
  have keep {r' : Relay} (k : Order accepted encoded r') :
      Order (accepted ++ []) (encoded ++ []) r' := by
    rw [List.append_nil, List.append_nil]
    exact k
  cases c with
  | accept e serving room =>
      rw [List.append_nil]
      exact h.accept e serving room
  | take e queue idle waiting => exact keep (h.take idle waiting)
  | handle e holding handled =>
      rw [List.append_nil]
      exact (h.handOver holding).works (works_handle holding handled)
  | schedule idle => exact keep (h.works (works_schedule r))
  | flush idle => exact keep (h.works (works_flushDue r))
  | windUp idle drained =>
      have hf := h.works (works_finalFlush r)
      rcases windUp_cases idle with ⟨-, hw⟩ | ⟨hs, hw⟩
      · rw [hw]
        exact keep hf
      · have hv := isServing_idle hs
        have hq : r.finalFlush.queue = [] := ((works_finalFlush r).isServing hv).2.trans drained
        rw [hw]
        exact keep (hf.retire hs hq)
  | stay => exact keep h
  | refuseFull => exact keep (h.same rfl rfl rfl (Nat.le_refl _))
  | refuseClosed => exact keep (h.same rfl rfl rfl (Nat.le_refl _))
  | close => exact keep (h.same rfl rfl rfl (Nat.le_refl _))
  | wait nanos => exact keep (h.same rfl rfl rfl (Nat.le_add_right _ _))

/-- For a machine whose moves change its relay: accepted events are missing exactly if one of the
moves took the worker down while events waited in the queue. -/
theorem changes_whole_iff {S M : Type} {step : S → M → Option S} (relay : S → Relay)
    {offered accepted encoded : S × M → List Event}
    (changes : ∀ {s t m}, step s m = some t →
      Change (relay s) (offered (s, m)) (accepted (s, m)) (encoded (s, m)) (relay t))
    {Loses : S × M → Prop}
    (loses : ∀ {s t m}, step s m = some t → (Loses (s, m) ↔
      (relay s).queue ≠ [] ∧ (relay s).stage ≠ .crashed ∧ (relay t).stage = .crashed))
    {first s : S} {past : List (S × M)} (start : (relay first).Order [] [])
    (h : Run step first past s) :
    past.flatMap accepted = past.flatMap encoded ++ (relay s).inHand ++ (relay s).queue ↔
      ∀ x ∈ past, ¬ Loses x := by
  have order {past : List (S × M)} {s : S} (h : Run step first past s) :
      (relay s).Order (past.flatMap accepted) (past.flatMap encoded) :=
    changes_invariant relay changes (P := fun _ accepted encoded r => Order accepted encoded r)
      start (fun h c => h.change c) h
  induction h with
  | start => exact ⟨fun _ x hx => absurd hx List.not_mem_nil, fun _ => start.whole_nil⟩
  | @next past u v m before enabled ih =>
      have c := changes enabled
      have hall : (∀ x ∈ past ++ [(u, m)], ¬ Loses x) ↔
          (∀ x ∈ past, ¬ Loses x) ∧ ¬ Loses (u, m) := by
        rw [List.forall_mem_append, List.forall_mem_singleton]
      rw [hall, loses enabled]
      by_cases hu : (relay u).stage = .crashed
      · -- The worker was down before, so nothing has changed since.
        obtain ⟨hv, hq, ha, he⟩ := c.down hu
        rw [inHand_gone (isServing_crashed hu)] at ih
        rw [List.flatMap_append, List.flatMap_append, List.flatMap_singleton,
          List.flatMap_singleton, inHand_gone (isServing_crashed hv), ha, he, hq,
          List.append_nil, List.append_nil]
        exact ih.trans ⟨fun hp => ⟨hp, fun hx => hx.2.1 hu⟩, fun hp => hp.1⟩
      · have hw := (order before).whole hu
        by_cases hv : (relay v).stage = .crashed
        · -- The move takes the worker down, and the queue is missing from now on.
          obtain ⟨ha, he, hq⟩ := c.fatal hu hv
          rw [List.flatMap_append, List.flatMap_append, List.flatMap_singleton,
            List.flatMap_singleton, inHand_gone (isServing_crashed hv), ha, he, hq,
            List.append_nil, List.append_nil, List.append_nil, hw, List.append_right_eq_self]
          refine ⟨fun hq => ⟨ih.1 hw, fun hx => hx.1 hq⟩, fun hp => ?_⟩
          exact Classical.byContradiction fun hq => hp.2 ⟨hq, hu, hv⟩
        · refine ⟨fun _ => ⟨ih.1 hw, fun hx => hv hx.2.2⟩, fun _ => ?_⟩
          exact (order (before.next enabled)).whole hv

/-! ## Whole runs -/

variable (s : Settings) (reactions : List Reaction) (answers : List DialAnswer) (clock : Clock)

theorem works_start :
    Works (unscheduled s reactions answers clock) (start s reactions answers clock) :=
  works_schedule _

theorem terms_start : (start s reactions answers clock).terms =
    (s.codec, s.queueSize, s.flushInterval, s.writeTimeout) :=
  (works_start s reactions answers clock).terms

theorem tally_start : Tally [] [] (start s reactions answers clock) := by
  have h : Tally [] [] (unscheduled s reactions answers clock) := ⟨rfl, rfl, rfl, rfl⟩
  exact h.keeps (works_start s reactions answers clock).keeps

theorem order_unscheduled : Order [] [] (unscheduled s reactions answers clock) :=
  ⟨Nat.zero_le _, List.prefix_rfl, fun _ => rfl, nofun, nofun⟩

theorem order_start : Order [] [] (start s reactions answers clock) :=
  (order_unscheduled s reactions answers clock).works (works_start s reactions answers clock)

variable {s reactions answers clock} {past : List (Relay × Move)} {r : Relay}

theorem run_terms (h : Run step (start s reactions answers clock) past r) :
    r.terms = (s.codec, s.queueSize, s.flushInterval, s.writeTimeout) :=
  run_invariant (P := fun _ _ _ r => r.terms = _) (terms_start s reactions answers clock)
    (fun h c => c.terms.trans h) h

theorem run_tally (h : Run step (start s reactions answers clock) past r) :
    Tally (past.flatMap offered) (past.flatMap accepted) r :=
  run_invariant (P := fun offered accepted _ r => Tally offered accepted r)
    (tally_start s reactions answers clock) (fun h c => h.change c) h

theorem run_order (h : Run step (start s reactions answers clock) past r) :
    Order (past.flatMap accepted) (past.flatMap encoded) r :=
  run_invariant (P := fun _ accepted encoded r => Order accepted encoded r)
    (order_start s reactions answers clock) (fun h c => h.change c) h

theorem Order.fatal {accepted encoded : List Event} (h : Order accepted encoded r)
    (ht : r.codec = s.codec) (hc : r.stage = .crashed) :
    (∃ e, s.codec e = .crashed) ∨ r.Late := by
  have hf := h.crashed hc
  rw [Fatal, ht] at hf
  exact hf

theorem Order.ended {accepted encoded : List Event} (h : Order accepted encoded r)
    (he : r.stage = .ended) : accepted = encoded := by
  have hw := h.whole fun hc => nomatch he.symm.trans hc
  have hg := isServing_ended he
  rw [h.drained hg, inHand_gone hg, List.append_nil, List.append_nil] at hw
  exact hw

def hasEnded (r : Relay) : Bool :=
  match r.stage with
  | .ended => true
  | _ => false

theorem stage_of_hasEnded {r : Relay} (h : r.hasEnded = true) : r.stage = .ended := by
  unfold hasEnded at h
  split at h
  · next hs => exact hs
  · exact absurd h Bool.false_ne_true

def sample : Event := ⟨⟨"requests", "", .empty⟩, .set .zero⟩

/-- Room for one event, and an encoder that refuses every event. -/
def cramped : Settings :=
  { Settings.ofTarget (fun _ => .failed [] (.bare .invalidInput)) "udp" "localhost" with
    queueSize := 1 }

end Relay
end Telemetry
