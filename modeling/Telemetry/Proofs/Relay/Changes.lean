import Telemetry.Proofs.Relay.Worker
import Telemetry.Relay.Threads
/-!
One list of changes for two machines.

A relay changes in eleven ways, whether calls are whole moves or threads interleave inside them. The
two machines differ in when a change is possible, so each of them is read once, below, and what
holds of a relay in every run is proved for the eleven changes alone.
-/

namespace Telemetry
namespace Relay

/-- A change of a relay, with the events that it offers, that it puts into the queue and that it
hands to the encoder. -/
inductive Change (r : Relay) : List Event → List Event → List Event → Relay → Prop where
  | stay : Change r [] [] [] r
  | accept (e : Event) (serving : r.isServing = true) (room : r.isFull = false) :
      Change r [e] [e] [] (r.accept e)
  | refuseFull (e : Event) (serving : r.isServing = true) (full : r.isFull = true) :
      Change r [e] [] [] (r.refuseFull e)
  | refuseClosed (e : Event) : Change r [e] [] [] (r.refuseClosed e)
  | close : Change r [] [] [] r.close
  | take (e : Event) (queue : List Event) (idle : r.stage = .idle)
      (waiting : r.queue = e :: queue) :
      Change r [] [] [] { r with stage := .holding e, queue }
  | handle (e : Event) {r' : Relay} (holding : r.stage = .holding e)
      (handled : r.handle? = some r') : Change r [] [] [e] r'
  | schedule (idle : r.stage = .idle) : Change r [] [] [] r.schedule
  | flush (idle : r.stage = .idle) : Change r [] [] [] r.flushDue
  | windUp (idle : r.stage = .idle) (drained : r.queue = []) : Change r [] [] [] r.windUp
  | wait (nanos : Nat) : Change r [] [] [] (r.setClock (r.clock.pass nanos))

theorem isIdle_eq {r : Relay} (h : r.isIdle = true) : r.stage = .idle ∧ r.queue = [] := by
  unfold isIdle at h
  split at h
  · next hs => exact ⟨hs, List.isEmpty_iff.1 h⟩
  · exact absurd h Bool.false_ne_true

theorem inHand_idle {r : Relay} (h : r.stage = .idle) : r.inHand = [] := by
  unfold inHand
  rw [h]

theorem inHand_holding {r : Relay} {e : Event} (h : r.stage = .holding e) : r.inHand = [e] := by
  unfold inHand
  rw [h]

theorem stage_of_gone {r : Relay} (h : r.isServing = false) :
    r.stage = .ended ∨ r.stage = .crashed := by
  unfold isServing at h
  split at h
  · exact nomatch h
  · exact nomatch h
  · next hs => exact .inl hs
  · next hs => exact .inr hs

theorem inHand_gone {r : Relay} (h : r.isServing = false) : r.inHand = [] := by
  unfold inHand
  rcases stage_of_gone h with hs | hs
  · rw [hs]
  · rw [hs]

theorem change_offer (r : Relay) (e : Event) :
    Change r [e] (if r.accepts then [e] else []) [] (r.offer e) := by
  unfold offer accepts
  cases hs : r.isServing with
  | false => exact .refuseClosed e
  | true =>
      cases hf : r.isFull with
      | false => exact .accept e hs hf
      | true => exact .refuseFull e hs hf

theorem take?_eq_some {r r' : Relay} (h : r.take? = some r') :
    ∃ e queue, r.stage = .idle ∧ r.queue = e :: queue ∧
      r' = { r with stage := .holding e, queue } := by
  unfold take? at h
  split at h
  · next e queue hs hq =>
    cases h
    exact ⟨e, queue, hs, hq, rfl⟩
  · exact nomatch h

theorem tick?_eq_some {r r' : Relay} (h : r.tick? = some r') :
    r.stage = .idle ∧ r.queue = [] ∧ r.isOpen = true ∧ r.isDue = true ∧ r' = r.flushDue := by
  unfold tick? at h
  split at h
  · next hi =>
    cases h
    rw [Bool.and_eq_true, Bool.and_eq_true] at hi
    obtain ⟨hs, hq⟩ := isIdle_eq hi.1.1
    exact ⟨hs, hq, hi.1.2, hi.2, rfl⟩
  · exact nomatch h

theorem finish?_eq_some {r r' : Relay} (h : r.finish? = some r') :
    r.stage = .idle ∧ r.queue = [] ∧ r.isOpen = false ∧ r' = r.windUp := by
  unfold finish? at h
  split at h
  · next hi =>
    cases h
    rw [Bool.and_eq_true, Bool.not_eq_true'] at hi
    obtain ⟨hs, hq⟩ := isIdle_eq hi.1
    exact ⟨hs, hq, hi.2, rfl⟩
  · exact nomatch h

theorem stage_submit (r : Relay) (e : Event) : (r.submit e).stage = r.stage := by
  unfold submit offer
  split
  · split
    · rfl
    · split
      · rfl
      · rfl
  · rfl

theorem change_take {r r' : Relay} (h : r.take? = some r') : Change r [] [] [] r' := by
  obtain ⟨e, queue, hs, hq, rfl⟩ := take?_eq_some h
  exact .take e queue hs hq

theorem holding_of_handle {r r' : Relay} (h : r.handle? = some r') :
    ∃ e, r.stage = .holding e := by
  unfold handle? at h
  split at h
  · next e hs => exact ⟨e, hs⟩
  · exact nomatch h

theorem exists_holding {r : Relay} {e : Event} {P : Event → Prop} (h : r.stage = .holding e) :
    (∃ f, r.stage = .holding f ∧ P f) ↔ P e := by
  constructor
  · rintro ⟨f, hf, hp⟩
    rw [h] at hf
    cases hf
    exact hp
  · intro hp
    exact ⟨e, h, hp⟩

theorem change_handle {r r' : Relay} (h : r.handle? = some r') :
    Change r [] [] r.inHand r' := by
  obtain ⟨e, hs⟩ := holding_of_handle h
  rw [inHand_holding hs]
  exact .handle e hs h

theorem step_change {r r' : Relay} {m : Move} (h : r.step m = some r') :
    Change r (offered (r, m)) (accepted (r, m)) (encoded (r, m)) r' := by
  cases m with
  | submit e =>
      cases h
      show Change r [e] (if r.isOpen && r.accepts then [e] else []) [] (r.submit e)
      unfold submit
      cases ho : r.isOpen with
      | false => exact .refuseClosed e
      | true => exact change_offer r e
  | close =>
      cases h
      exact .close
  | take => exact change_take h
  | handle => exact change_handle h
  | tick =>
      obtain ⟨hs, -, -, -, rfl⟩ := tick?_eq_some h
      exact .flush hs
  | finish =>
      obtain ⟨hs, hq, -, rfl⟩ := finish?_eq_some h
      exact .windUp hs hq
  | wait nanos =>
      cases h
      exact .wait nanos

/-- Only handling an event, a flush and the end can take the worker down. -/
theorem crashed_of_step {r r' : Relay} {m : Move} (h : r.step m = some r')
    (hm : m ≠ .handle ∧ m ≠ .tick ∧ m ≠ .finish) (hc : r'.stage = .crashed) :
    r.stage = .crashed := by
  cases m with
  | submit e =>
      cases h
      exact (stage_submit r e).symm.trans hc
  | close =>
      cases h
      exact hc
  | take =>
      obtain ⟨e, queue, -, -, rfl⟩ := take?_eq_some h
      exact nomatch hc
  | wait nanos =>
      cases h
      exact hc
  | handle => exact absurd rfl hm.1
  | tick => exact absurd rfl hm.2.1
  | finish => exact absurd rfl hm.2.2

theorem Change.terms {r r' : Relay} {offered accepted encoded : List Event}
    (c : Change r offered accepted encoded r') : r'.terms = r.terms := by
  cases c with
  | handle e holding handled => exact (works_handle holding handled).terms
  | schedule idle => exact (works_schedule r).terms
  | flush idle => exact (works_flushDue r).terms
  | windUp idle drained => exact (keeps_windUp idle).terms
  | stay => rfl
  | accept => rfl
  | refuseFull => rfl
  | refuseClosed => rfl
  | close => rfl
  | take => rfl
  | wait => rfl

/-- Nothing opens the entrance again. -/
theorem Change.isOpen {r r' : Relay} {offered accepted encoded : List Event}
    (c : Change r offered accepted encoded r') (h : r.isOpen = false) : r'.isOpen = false := by
  rw [Bool.eq_false_iff] at h ⊢
  intro ho
  refine h ?_
  cases c with
  | handle e holding handled => exact (works_handle holding handled).isOpen ho
  | schedule idle => exact (works_schedule r).isOpen ho
  | flush idle => exact (works_flushDue r).isOpen ho
  | windUp idle drained => exact (keeps_windUp idle).isOpen ho
  | refuseFull => exact ((Bool.and_eq_true _ _).mp ho).1
  | refuseClosed => exact ((Bool.and_eq_true _ _).mp ho).1
  | close => exact absurd ho Bool.false_ne_true
  | stay => exact ho
  | accept => exact ho
  | take => exact ho
  | wait => exact ho

/-- What a change that takes the worker down does: nothing gets into the queue, the event in hand is
handed to the encoder, and the queue is gone. -/
theorem Change.fatal {r r' : Relay} {offered accepted encoded : List Event}
    (c : Change r offered accepted encoded r') (h : r.stage ≠ .crashed)
    (h' : r'.stage = .crashed) : accepted = [] ∧ encoded = r.inHand ∧ r'.queue = [] := by
  have gone {q : Relay} (w : Works q r') (hs : q.stage ≠ .crashed) : r'.queue = [] := by
    rcases w.queue with ⟨hk, -⟩ | ⟨-, hq, -⟩
    · exact absurd (hk.symm.trans h') hs
    · exact hq
  cases c with
  | handle e holding handled =>
      exact ⟨rfl, (inHand_holding holding).symm, gone (works_handle holding handled) nofun⟩
  | schedule idle => exact ⟨rfl, (inHand_idle idle).symm, gone (works_schedule r) h⟩
  | flush idle => exact ⟨rfl, (inHand_idle idle).symm, gone (works_flushDue r) h⟩
  | windUp idle drained =>
      refine ⟨rfl, (inHand_idle idle).symm, ?_⟩
      rcases windUp_cases idle with ⟨-, hw⟩ | ⟨-, hw⟩
      · rw [hw] at h' gone ⊢
        exact gone (works_finalFlush r) h
      · rw [hw] at h'
        exact nomatch h'
  | take => exact nomatch h'
  | stay => exact absurd h' h
  | accept => exact absurd h' h
  | refuseFull => exact absurd h' h
  | refuseClosed => exact absurd h' h
  | close => exact absurd h' h
  | wait => exact absurd h' h

/-- Nothing gets into the queue of a worker that is down, and nothing out of it. -/
theorem Change.down {r r' : Relay} {offered accepted encoded : List Event}
    (c : Change r offered accepted encoded r') (h : r.stage = .crashed) :
    r'.stage = .crashed ∧ r'.queue = r.queue ∧ accepted = [] ∧ encoded = [] := by
  cases c with
  | accept e serving =>
      exact absurd ((isServing_crashed h).symm.trans serving) Bool.false_ne_true
  | handle e holding => exact nomatch holding.symm.trans h
  | take e queue idle => exact nomatch idle.symm.trans h
  | schedule idle => exact nomatch idle.symm.trans h
  | flush idle => exact nomatch idle.symm.trans h
  | windUp idle => exact nomatch idle.symm.trans h
  | stay => exact ⟨h, rfl, rfl, rfl⟩
  | refuseFull => exact ⟨h, rfl, rfl, rfl⟩
  | refuseClosed => exact ⟨h, rfl, rfl, rfl⟩
  | close => exact ⟨h, rfl, rfl, rfl⟩
  | wait => exact ⟨h, rfl, rfl, rfl⟩

/-- What holds of a relay at the start, and is kept by every change, holds at the end of every run
of a machine that changes its relay in these ways only. -/
theorem changes_invariant {S M : Type} {step : S → M → Option S} (relay : S → Relay)
    {offered accepted encoded : S × M → List Event}
    (changes : ∀ {s t m}, step s m = some t →
      Change (relay s) (offered (s, m)) (accepted (s, m)) (encoded (s, m)) (relay t))
    {P : List Event → List Event → List Event → Relay → Prop} {first : S}
    (start : P [] [] [] (relay first))
    (next : ∀ {o a e r o' a' e' r'}, P o a e r → Change r o' a' e' r' →
      P (o ++ o') (a ++ a') (e ++ e') r')
    {past : List (S × M)} {s : S} (h : Run step first past s) :
    P (past.flatMap offered) (past.flatMap accepted) (past.flatMap encoded) (relay s) := by
  induction h with
  | start => exact start
  | next before enabled ih =>
      rw [List.flatMap_append, List.flatMap_append, List.flatMap_append, List.flatMap_singleton,
        List.flatMap_singleton, List.flatMap_singleton]
      exact next ih (changes enabled)

theorem run_invariant {P : List Event → List Event → List Event → Relay → Prop} {first : Relay}
    (start : P [] [] [] first)
    (next : ∀ {o a e r o' a' e' r'}, P o a e r → Change r o' a' e' r' →
      P (o ++ o') (a ++ a') (e ++ e') r')
    {past : List (Relay × Move)} {r : Relay} (h : Run step first past r) :
    P (past.flatMap offered) (past.flatMap accepted) (past.flatMap encoded) r :=
  changes_invariant id step_change start next h

end Relay

namespace Threads

/-- Every move that can be made, with what allows it and what it makes. -/
inductive Steps (t : Threads) : Move → Threads → Prop where
  | load (i : Nat) (e : Event) (point : t.points[i]? = some .outside) :
      Steps t (.load i e) (t.load i e)
  | send (i : Nat) (e : Event) (holds : Bool) (point : t.points[i]? = some (.loaded e holds)) :
      Steps t (.send i) (t.send i e holds)
  | close (i : Nat) (point : t.points[i]? = some .outside) :
      Steps t (.close i) { t.moveTo i (.emptied false) with relay := t.relay.close }
  | claim (i : Nat) (holds : Bool) (point : t.points[i]? = some (.emptied holds)) :
      Steps t (.claim i) (t.claim i holds)
  | joined (i : Nat) (holds : Bool) (point : t.points[i]? = some (.joining holds))
      (gone : t.relay.isServing = false) : Steps t (.joined i) (t.moveTo i (.leaving holds))
  | leave (i : Nat) (holds : Bool) (point : t.points[i]? = some (.leaving holds)) :
      Steps t (.leave i) (t.moveTo i .outside)
  | begin (phase : t.phase = .starting) (idle : t.relay.stage = .idle) :
      Steps t .begin { t with relay := t.relay.schedule, phase := .waiting }
  | take (relay : Relay) (phase : t.phase = .waiting) (taken : t.relay.take? = some relay) :
      Steps t .take { t with relay }
  | handle (relay : Relay) (handled : t.relay.handle? = some relay) :
      Steps t .handle { t with relay }
  | expire (phase : t.phase = .waiting) (idle : t.relay.isIdle = true)
      (reachable : t.isConnected = true) (due : t.relay.isDue = true) :
      Steps t .expire { t with phase := .expired }
  | tick (phase : t.phase = .expired) (idle : t.relay.stage = .idle) :
      Steps t .tick { t with relay := t.relay.flushDue, phase := .waiting }
  | finish (phase : t.phase = .waiting) (idle : t.relay.isIdle = true)
      (gone : t.isConnected = false) : Steps t .finish { t with relay := t.relay.windUp }
  | wait (nanos : Nat) :
      Steps t (.wait nanos) { t with relay := t.relay.setClock (t.relay.clock.pass nanos) }

theorem step_cases {t t' : Threads} {m : Move} (h : t.step m = some t') : Steps t m t' := by
  cases m with
  | load i e =>
      dsimp only [step] at h
      split at h
      · next hp =>
        cases h
        exact .load i e hp
      · exact nomatch h
  | send i =>
      dsimp only [step] at h
      split at h
      · next e holds hp =>
        cases h
        exact .send i e holds hp
      · exact nomatch h
  | close i =>
      dsimp only [step] at h
      split at h
      · next hp =>
        cases h
        exact .close i hp
      · exact nomatch h
  | claim i =>
      dsimp only [step] at h
      split at h
      · next holds hp =>
        cases h
        exact .claim i holds hp
      · exact nomatch h
  | joined i =>
      dsimp only [step] at h
      split at h
      · next holds hp =>
        split at h
        · exact nomatch h
        · next hs =>
          cases h
          exact .joined i holds hp (Bool.eq_false_iff.2 hs)
      · exact nomatch h
  | leave i =>
      dsimp only [step] at h
      split at h
      · next holds hp =>
        cases h
        exact .leave i holds hp
      · exact nomatch h
  | begin =>
      dsimp only [step] at h
      split at h
      · next hp hs =>
        cases h
        exact .begin hp hs
      · exact nomatch h
  | take =>
      dsimp only [step] at h
      split at h
      · next hp =>
        obtain ⟨r, hr, rfl⟩ := Option.map_eq_some_iff.1 h
        exact .take r hp hr
      · exact nomatch h
  | handle =>
      obtain ⟨r, hr, rfl⟩ := Option.map_eq_some_iff.1 h
      exact .handle r hr
  | expire =>
      dsimp only [step] at h
      split at h
      · next hp =>
        split at h
        · next hi =>
          cases h
          rw [Bool.and_eq_true, Bool.and_eq_true] at hi
          exact .expire hp hi.1.1 hi.1.2 hi.2
        · exact nomatch h
      · exact nomatch h
  | tick =>
      dsimp only [step] at h
      split at h
      · next hp hs =>
        cases h
        exact .tick hp hs
      · exact nomatch h
  | finish =>
      dsimp only [step] at h
      split at h
      · next hp =>
        split at h
        · next hi =>
          cases h
          rw [Bool.and_eq_true, Bool.not_eq_true'] at hi
          exact .finish hp hi.1 hi.2
        · exact nomatch h
      · exact nomatch h
  | wait nanos =>
      cases h
      exact .wait nanos

/-- What allows a move makes it possible. -/
theorem Steps.enabled {t t' : Threads} {m : Move} (h : Steps t m t') : t.step m = some t' := by
  cases h with
  | load i e point => simp only [step, point]
  | send i e holds point => simp only [step, point]
  | close i point => simp only [step, point]
  | claim i holds point => simp only [step, point]
  | joined i holds point gone => simp [step, point, gone]
  | leave i holds point => simp only [step, point]
  | begin phase idle => simp only [step, phase, idle]
  | take relay phase taken => simp only [step, phase, onRelay, taken, Option.map_some]
  | handle relay handled => simp only [step, onRelay, handled, Option.map_some]
  | expire phase idle reachable due => simp [step, phase, idle, reachable, due]
  | tick phase idle => simp only [step, phase, idle]
  | finish phase idle gone => simp [step, phase, idle, gone]
  | wait nanos => rfl

theorem relay_claim (t : Threads) (i : Nat) (holds : Bool) : (t.claim i holds).relay = t.relay := by
  unfold claim
  split
  · rfl
  · rfl

theorem phase_claim (t : Threads) (i : Nat) (holds : Bool) : (t.claim i holds).phase = t.phase := by
  unfold claim
  split
  · rfl
  · rfl

/-- An event gets into the queue, or is turned away and the callback has its say. -/
theorem send_cases (t : Threads) (i : Nat) (e : Event) (holds : Bool) :
    (holds = true ∧ t.relay.accepts = true ∧
      t.send i e holds = { t.moveTo i (.leaving holds) with relay := t.relay.accept e }) ∨
    ((holds && t.relay.accepts) = false ∧ ∃ r,
      (r = t.relay.refuseFull e ∨ r = t.relay.refuseClosed e) ∧
      t.send i e holds =
        { t.moveTo i
            (if t.relay.reporter.reaction.closes then .emptied holds else .leaving holds) with
          relay := r }) := by
  unfold send
  by_cases ha : (holds && t.relay.accepts) = true
  · rw [if_pos ha]
    exact .inl ⟨((Bool.and_eq_true _ _).mp ha).1, ((Bool.and_eq_true _ _).mp ha).2, rfl⟩
  · rw [if_neg ha]
    refine .inr ⟨Bool.eq_false_iff.2 ha, _, ?_, rfl⟩
    cases holds with
    | false => exact .inr rfl
    | true =>
        have hn : t.relay.accepts = false := Bool.eq_false_iff.2 ha
        rw [if_pos rfl]
        unfold Relay.offer
        unfold Relay.accepts at hn
        cases hs : t.relay.isServing with
        | false => exact .inr rfl
        | true =>
            cases hf : t.relay.isFull with
            | true => exact .inl rfl
            | false =>
                rw [hs, hf] at hn
                exact nomatch hn

theorem relay_send (t : Threads) (i : Nat) (e : Event) (holds : Bool) :
    (t.send i e holds).relay = t.relay.accept e ∨
      (t.send i e holds).relay = t.relay.refuseFull e ∨
      (t.send i e holds).relay = t.relay.refuseClosed e := by
  rcases t.send_cases i e holds with ⟨-, -, hs⟩ | ⟨-, r, hr, hs⟩
  · rw [hs]
    exact .inl rfl
  · rw [hs]
    exact .inr hr

theorem phase_send (t : Threads) (i : Nat) (e : Event) (holds : Bool) :
    (t.send i e holds).phase = t.phase := by
  rcases t.send_cases i e holds with ⟨-, -, hs⟩ | ⟨-, r, -, hs⟩
  · rw [hs]
    rfl
  · rw [hs]
    rfl

theorem change_send {t : Threads} {i : Nat} {e : Event} {holds : Bool}
    (hp : t.points[i]? = some (.loaded e holds)) :
    Relay.Change t.relay (offered (t, .send i)) (accepted (t, .send i)) (encoded (t, .send i))
      (t.send i e holds).relay := by
  simp only [offered, accepted, encoded, hp]
  unfold send
  cases holds with
  | false => exact .refuseClosed e
  | true =>
      have hc := Relay.change_offer t.relay e
      cases ha : t.relay.accepts with
      | false =>
          rw [ha] at hc
          exact hc
      | true =>
          rw [Relay.accepts, Bool.and_eq_true, Bool.not_eq_true'] at ha
          exact .accept e ha.1 ha.2

theorem step_change {t t' : Threads} {m : Move} (h : t.step m = some t') :
    Relay.Change t.relay (offered (t, m)) (accepted (t, m)) (encoded (t, m)) t'.relay := by
  cases step_cases h with
  | send i e holds point => exact change_send point
  | claim i holds point =>
      rw [relay_claim]
      exact .stay
  | begin phase idle => exact .schedule idle
  | take relay phase taken => exact Relay.change_take taken
  | handle relay handled => exact Relay.change_handle handled
  | tick phase idle => exact .flush idle
  | finish phase idle gone => exact .windUp (Relay.isIdle_eq idle).1 (Relay.isIdle_eq idle).2
  | expire => exact .stay
  | load => exact .stay
  | close => exact .close
  | joined => exact .stay
  | leave => exact .stay
  | wait nanos => exact .wait nanos

theorem run_invariant {P : List Event → List Event → List Event → Relay → Prop} {first : Threads}
    (start : P [] [] [] first.relay)
    (next : ∀ {o a e r o' a' e' r'}, P o a e r → Relay.Change r o' a' e' r' →
      P (o ++ o') (a ++ a') (e ++ e') r')
    {past : List (Threads × Move)} {t : Threads} (h : Run step first past t) :
    P (past.flatMap offered) (past.flatMap accepted) (past.flatMap encoded) t.relay :=
  Relay.changes_invariant relay step_change start next h

end Threads
end Telemetry
