import Telemetry.Proofs.Relay.Batching
import Telemetry.Proofs.Relay.Waiting
/-!
A flush that is due while events wait in the queue.

The worker asks for its next event until the moment of the next flush, and an event that waits in
the queue is the answer whatever the clock shows. So a flush that is due comes only when the worker
finds the queue empty: it comes behind all events that were in the queue when it fell due, and
behind all that get there before the worker has caught up. Producers who keep the queue filled put
it off for ever. `flush_yields` says all of this, and `flush_starved` gives a run in which the flush
never comes.
-/

namespace Telemetry
namespace Relay

/-! ## The moment of the next flush -/

theorem nextFlush_ensureConnected (r : Relay) : r.ensureConnected.nextFlush = r.nextFlush := by
  obtain ⟨_, _, _, _, _, h⟩ := r.exists_dialSteps (r.backoff.connect r.answers).steps
  unfold ensureConnected
  split
  · show ((r.backoff.connect r.answers).steps.foldl dialStep r).nextFlush = r.nextFlush
    rw [h]
  · rfl

theorem nextFlush_conclude (r : Relay) (result : Verdict × Transmitter) :
    (r.conclude result).nextFlush = r.nextFlush := by
  obtain ⟨_, _, _, _, _, h⟩ := r.exists_conclude result
  rw [h]

theorem nextFlush_handle {r r' : Relay} (h : r.handle? = some r') :
    r'.nextFlush = r.nextFlush := by
  obtain ⟨e, hs⟩ := holding_of_handle h
  rw [handle?_holding hs] at h
  cases h
  rw [nextFlush_conclude, nextFlush_ensureConnected]

theorem nextFlush_windUp {r : Relay} (h : r.stage = .idle) : r.windUp.nextFlush = r.nextFlush := by
  have final : r.finalFlush.nextFlush = r.nextFlush := by
    unfold finalFlush
    split
    · rfl
    · rw [nextFlush_conclude, nextFlush_ensureConnected]
  have rest (q : Relay) : q.retire.nextFlush = q.nextFlush := by
    unfold retire discardRest
    split
    · rfl
    · rfl
  rcases windUp_cases h with ⟨-, hw⟩ | ⟨-, hw⟩
  · rw [hw, final]
  · rw [hw, rest, final]

/-- The flush is due one interval after the last reading of the clock, unless the worker is gone. -/
def Timed (interval : Duration) (r : Relay) : Prop :=
  r.isServing = true → r.nextFlush = r.clock.now + interval.nanos

theorem timed_schedule (r : Relay) : r.schedule.Timed r.flushInterval := by
  unfold schedule Moment.after?
  dsimp only
  split
  · exact nofun
  · next m hm =>
    intro _
    split at hm
    · cases hm
      rfl
    · exact nomatch hm

theorem timed_flushDue (r : Relay) : r.flushDue.Timed r.flushInterval := by
  rw [flushDue_eq, ← flushInterval_eq (works_flushed r).terms]
  split
  · exact timed_schedule r.flushed
  · next hg => exact fun hs => absurd hs hg

theorem isIdle_of {r : Relay} (hs : r.stage = .idle) (hq : r.queue = []) : r.isIdle = true := by
  rw [isIdle, hs, hq]
  rfl

/-- Time goes on. -/
theorem Change.time {r r' : Relay} {offered accepted encoded : List Event}
    (c : Change r offered accepted encoded r') : r.clock.now ≤ r'.clock.now := by
  cases c with
  | handle e holding handled => exact (works_handle holding handled).time
  | schedule idle => exact (works_schedule r).time
  | flush idle => exact (works_flushDue r).time
  | windUp idle drained => exact (keeps_windUp idle).time
  | wait nanos => exact Nat.le_add_right _ _
  | stay => exact Nat.le_refl _
  | accept => exact Nat.le_refl _
  | refuseFull => exact Nat.le_refl _
  | refuseClosed => exact Nat.le_refl _
  | close => exact Nat.le_refl _
  | take => exact Nat.le_refl _

theorem isDue_of_le {r r' : Relay} (h : r.isDue = true) (ht : r.clock.now ≤ r'.clock.now)
    (hn : r'.nextFlush = r.nextFlush) : r'.isDue = true := by
  unfold isDue at h ⊢
  rw [decide_eq_true_iff] at h ⊢
  rw [hn]
  exact Nat.le_trans h ht

end Relay

namespace Threads

/-- The worker chooses the moment of the next flush. -/
def Move.schedules : Move → Bool
  | .begin => true
  | .tick => true
  | _ => false

/-- Only its start and a flush set the worker's timer. -/
theorem step_timer {t t' : Threads} {m : Move} (h : t.step m = some t') :
    (m.schedules = true → t'.relay.Timed t.relay.flushInterval) ∧
    (m.schedules = false → t'.relay.nextFlush = t.relay.nextFlush) := by
  cases step_cases h with
  | begin => exact ⟨fun _ => Relay.timed_schedule t.relay, nofun⟩
  | tick => exact ⟨fun _ => Relay.timed_flushDue t.relay, nofun⟩
  | handle relay handled => exact ⟨nofun, fun _ => Relay.nextFlush_handle handled⟩
  | finish phase idle => exact ⟨nofun, fun _ => Relay.nextFlush_windUp (Relay.isIdle_eq idle).1⟩
  | send i e holds point =>
      refine ⟨nofun, fun _ => ?_⟩
      rcases t.relay_send i e holds with hr | hr | hr
      · rw [hr]
        rfl
      · rw [hr]
        rfl
      · rw [hr]
        rfl
  | claim i holds point =>
      rw [relay_claim]
      exact ⟨nofun, fun _ => rfl⟩
  | take relay phase taken =>
      obtain ⟨e, queue, -, -, rfl⟩ := Relay.take?_eq_some taken
      exact ⟨nofun, fun _ => rfl⟩
  | load => exact ⟨nofun, fun _ => rfl⟩
  | close => exact ⟨nofun, fun _ => rfl⟩
  | joined => exact ⟨nofun, fun _ => rfl⟩
  | leave => exact ⟨nofun, fun _ => rfl⟩
  | expire => exact ⟨nofun, fun _ => rfl⟩
  | wait => exact ⟨nofun, fun _ => rfl⟩

/-! ## The worker's next event -/

/-- The worker gets the answer to its question for the next event: an event, that the wait has
lasted until the flush, or that nothing more can come. -/
def Move.isAnswer : Move → Bool
  | .take => true
  | .expire => true
  | .finish => true
  | _ => false

/-- What the worker can do next while it waits for an event: it gets an answer and nothing else. The
flush is an answer only if the queue is empty. -/
structure Answers (t : Threads) : Prop where
  take : (t.step .take).isSome = true ↔ t.relay.queue ≠ []
  expire : (t.step .expire).isSome = true ↔
    t.relay.queue = [] ∧ t.isConnected = true ∧ t.relay.isDue = true
  finish : (t.step .finish).isSome = true ↔ t.relay.queue = [] ∧ t.isConnected = false
  begin : t.step .begin = none
  handle : t.step .handle = none
  tick : t.step .tick = none

theorem answers_waiting {t : Threads} (hp : t.phase = .waiting) (hs : t.relay.stage = .idle) :
    t.Answers where
  take := by
    rw [Option.isSome_iff_exists]
    constructor
    · rintro ⟨t', ht⟩
      cases step_cases ht with
      | take relay phase taken =>
          obtain ⟨e, queue, -, hq, -⟩ := Relay.take?_eq_some taken
          exact hq ▸ List.cons_ne_nil e queue
    · intro hq
      obtain ⟨e, queue, hq⟩ := List.exists_cons_of_ne_nil hq
      refine ⟨_, (Steps.take { t.relay with stage := .holding e, queue } hp ?_).enabled⟩
      rw [Relay.take?, hs, hq]
  expire := by
    rw [Option.isSome_iff_exists]
    constructor
    · rintro ⟨t', ht⟩
      cases step_cases ht with
      | expire phase idle reachable due => exact ⟨(Relay.isIdle_eq idle).2, reachable, due⟩
    · rintro ⟨hq, hc, hd⟩
      exact ⟨_, (Steps.expire hp (Relay.isIdle_of hs hq) hc hd).enabled⟩
  finish := by
    rw [Option.isSome_iff_exists]
    constructor
    · rintro ⟨t', ht⟩
      cases step_cases ht with
      | finish phase idle gone => exact ⟨(Relay.isIdle_eq idle).2, gone⟩
    · rintro ⟨hq, hc⟩
      exact ⟨_, (Steps.finish hp (Relay.isIdle_of hs hq) hc).enabled⟩
  begin := by simp only [step, hp]
  handle := by simp only [step, onRelay, Relay.handle?, hs, Option.map_none]
  tick := by simp only [step, hp]

/-- What the worker can do once its wait has lasted until the flush: it makes the flush, and nothing
before it. -/
structure Flushes (t : Threads) : Prop where
  tick : (t.step .tick).isSome = true
  flushed : ∀ t', t.step .tick = some t' → t.relay.flushing.1 = .done →
    t'.relay.transmitter.pending = []
  begin : t.step .begin = none
  take : t.step .take = none
  handle : t.step .handle = none
  expire : t.step .expire = none
  finish : t.step .finish = none

theorem flushes_expired {t : Threads} (hp : t.phase = .expired) (hs : t.relay.stage = .idle) :
    t.Flushes where
  tick := Option.isSome_of_eq_some (Steps.tick hp hs).enabled
  flushed := fun t' ht hv => by
    cases step_cases ht with
    | tick phase idle => exact Relay.pending_flushDue hv
  begin := by simp only [step, hp]
  take := by simp only [step, hp]
  handle := by simp only [step, onRelay, Relay.handle?, hs, Option.map_none]
  expire := by simp only [step, hp]
  finish := by simp only [step, hp]

/-! ## Overdue events -/

/-- The worker takes an event from the queue though the flush is due. -/
def isOverdue : Threads × Move → Bool
  | (t, .take) => t.relay.isDue
  | _ => false

theorem step_waiting {t t' : Threads} {m : Move} (h : t.step m = some t') (hp : t.phase = .waiting)
    (hm : m ≠ .expire) : t'.phase = .waiting ∧ m.schedules = false := by
  cases step_cases h with
  | expire => exact absurd rfl hm
  | begin phase => exact nomatch hp.symm.trans phase
  | tick phase => exact nomatch hp.symm.trans phase
  | send i e holds point => exact ⟨(t.phase_send i e holds).trans hp, rfl⟩
  | claim i holds point => exact ⟨(t.phase_claim i holds).trans hp, rfl⟩
  | load => exact ⟨hp, rfl⟩
  | close => exact ⟨hp, rfl⟩
  | joined => exact ⟨hp, rfl⟩
  | leave => exact ⟨hp, rfl⟩
  | take => exact ⟨hp, rfl⟩
  | handle => exact ⟨hp, rfl⟩
  | finish => exact ⟨hp, rfl⟩
  | wait => exact ⟨hp, rfl⟩

/-- A flush that is due stays due until the worker's wait ends in it, and all events taken in
between are taken too early. -/
theorem run_due {t u : Threads} {future : List (Threads × Move)} (h : Run step t future u)
    (hp : t.phase = .waiting) (hd : t.relay.isDue = true) (hn : ∀ x ∈ future, x.2 ≠ .expire) :
    u.phase = .waiting ∧ u.relay.isDue = true ∧
      ∀ x ∈ future, x.2 = .take → isOverdue x = true := by
  induction h with
  | start => exact ⟨hp, hd, fun x hx => absurd hx List.not_mem_nil⟩
  | @next future v w m before enabled ih =>
      rw [List.forall_mem_append, List.forall_mem_singleton] at hn
      obtain ⟨hv, due, taken⟩ := ih hn.1
      obtain ⟨hw, unset⟩ := step_waiting enabled hv hn.2
      have later := (step_change enabled).time
      refine ⟨hw, Relay.isDue_of_le due later ((step_timer enabled).2 unset), ?_⟩
      rw [List.forall_mem_append, List.forall_mem_singleton]
      refine ⟨taken, fun hm => ?_⟩
      have hm : m = .take := hm
      rw [hm]
      exact due

/-! ## Whole runs -/

variable {s : Settings} {reactions : List Reaction} {answers : List DialAnswer} {clock : Clock}
  {count : Nat} {past : List (Threads × Move)} {t : Threads}

theorem run_flushInterval
    (h : Run step (start (.unscheduled s.withDefaults reactions answers clock) count) past t) :
    t.relay.flushInterval = s.withDefaults.flushInterval :=
  run_invariant (P := fun _ _ _ r => r.flushInterval = s.withDefaults.flushInterval) rfl
    (fun h c => (Relay.flushInterval_eq c.terms).trans h) h

/-- No event is taken too early exactly if the queue is empty whenever the worker gets an answer
with the flush due. -/
theorem run_prompt_iff {first : Threads} (h : Run step first past t) :
    (∀ x ∈ past, isOverdue x = false) ↔
      ∀ x ∈ past, x.2.isAnswer = true → x.1.relay.isDue = true → x.1.relay.queue = [] := by
  refine forall₂_congr fun x hx => ?_
  obtain ⟨u, m⟩ := x
  obtain ⟨v, enabled⟩ := h.enabled_of_mem hx
  cases step_cases enabled with
  | take relay phase taken =>
      obtain ⟨e, queue, -, hq, -⟩ := Relay.take?_eq_some taken
      have some : u.relay.queue ≠ [] := hq ▸ List.cons_ne_nil e queue
      show u.relay.isDue = false ↔ _
      constructor
      · intro hd _ due
        exact absurd (hd.symm.trans due) Bool.false_ne_true
      · intro hq
        exact Bool.eq_false_iff.2 fun due => some (hq rfl due)
  | expire phase idle => exact ⟨fun _ _ _ => (Relay.isIdle_eq idle).2, fun _ => rfl⟩
  | finish phase idle => exact ⟨fun _ _ _ => (Relay.isIdle_eq idle).2, fun _ => rfl⟩
  | begin => exact ⟨fun _ => nofun, fun _ => rfl⟩
  | tick => exact ⟨fun _ => nofun, fun _ => rfl⟩
  | handle => exact ⟨fun _ => nofun, fun _ => rfl⟩
  | load => exact ⟨fun _ => nofun, fun _ => rfl⟩
  | send => exact ⟨fun _ => nofun, fun _ => rfl⟩
  | close => exact ⟨fun _ => nofun, fun _ => rfl⟩
  | claim => exact ⟨fun _ => nofun, fun _ => rfl⟩
  | joined => exact ⟨fun _ => nofun, fun _ => rfl⟩
  | leave => exact ⟨fun _ => nofun, fun _ => rfl⟩
  | wait => exact ⟨fun _ => nofun, fun _ => rfl⟩

/-- The flush comes behind the event in the worker's hand, those in the queue, and all that get
there before it. -/
theorem run_caught_up {u u' : Threads} {future : List (Threads × Move)}
    (h : Run step (start (.unscheduled s.withDefaults reactions answers clock) count) past t)
    (hu : Run step t future u) (he : u.step .expire = some u') :
    future.flatMap encoded = t.relay.inHand ++ t.relay.queue ++ future.flatMap accepted := by
  cases step_cases he with
  | expire phase idle =>
      obtain ⟨hs, hq⟩ := Relay.isIdle_eq idle
      have all := (run_order (h.trans hu)).drained_idle hs hq
      have serving : t.relay.stage ≠ .crashed :=
        fun hc => nomatch hs.symm.trans (run_crashed hu hc)
      have whole := (run_order h).whole serving
      rw [List.flatMap_append, List.flatMap_append, whole, List.append_assoc, List.append_assoc,
        List.append_cancel_left_eq] at all
      rw [← all, List.append_assoc]

/-- Whatever the order in which threads submit events to a relay and close it, and however long
anything takes: the worker's timer is set to one interval after its start, and after each flush that
it calls for. While the worker has nothing in hand it takes an event if there is one, though the
flush be due, and turns to the flush only if the queue is empty and something may still come; then
it makes the flush before anything else, and all that was gathered is flushed unless that fails. So
a flush that is due comes behind the event in the worker's hand, those in the queue, and all that
get there until the worker finds the queue empty, and each of them is taken too early. None is taken
too early exactly as long as the queue is empty whenever the worker gets an answer with the flush
due. -/
theorem flush_yields
    (h : Run step (start (.unscheduled s.withDefaults reactions answers clock) count) past t) :
    (∀ m t', t.step m = some t' →
      (m.schedules = true → t'.relay.Timed s.withDefaults.flushInterval) ∧
      (m.schedules = false → t'.relay.nextFlush = t.relay.nextFlush)) ∧
    (t.phase = .waiting → t.relay.stage = .idle → t.Answers) ∧
    (t.phase = .expired → t.Flushes) ∧
    (t.phase = .waiting → t.relay.isDue = true → ∀ future u u', Run step t future u →
      (∀ x ∈ future, x.2 ≠ .expire) → u.step .expire = some u' →
      future.flatMap encoded = t.relay.inHand ++ t.relay.queue ++ future.flatMap accepted ∧
      ∀ x ∈ future, x.2 = .take → isOverdue x = true) ∧
    ((∀ x ∈ past, isOverdue x = false) ↔
      ∀ x ∈ past, x.2.isAnswer = true → x.1.relay.isDue = true → x.1.relay.queue = []) := by
  have interval := run_flushInterval h
  refine ⟨fun m t' hm => interval ▸ step_timer hm, answers_waiting, fun hp => ?_,
    fun hp hd future u u' hu hn he => ?_, run_prompt_iff h⟩
  · have idle : t.relay.stage = .idle := (run_waits_start h).idle (by simp [hp])
    exact flushes_expired hp idle
  · obtain ⟨-, -, taken⟩ := run_due hu hp hd hn
    exact ⟨run_caught_up h hu he, taken⟩

/-- One byte for one metric, and none for any other. -/
def sparse : Settings :=
  Settings.ofTarget (fun e => if e.metric.name = "mark" then .done [1] else .done [])
    "udp" "localhost"

def mark : Event := ⟨.ofName "mark", .set .zero⟩

/-- A byte has been gathered, and while the worker is busy with the next event the flush falls due
and a further event gets into the queue. -/
def belated : Option (List (Threads × Move) × Threads) :=
  Run.follow step (start (.unscheduled sparse.withDefaults [] [] ⟨0, []⟩) 1)
    [.begin, .load 0 mark, .send 0, .leave 0, .take, .handle,
      .load 0 Relay.sample, .send 0, .leave 0, .take, .wait (5 * nanosPerSecond),
      .load 0 Relay.sample, .send 0, .leave 0, .handle]

/-- The state behind that, with the number of accepted events. -/
def overdue (queued : UInt64) : Threads where
  relay :=
    { Relay.unscheduled sparse.withDefaults [] [] ⟨5 * nanosPerSecond, []⟩ with
      transmitter :=
        { Transmitter.start 512 (.ofSeconds 1) ⟨5 * nanosPerSecond, []⟩ with
          pending := [1]
          connection := some .ideal
          counters := { Counters.zero with queued, established := 1 } }
      dials := 1
      queue := [Relay.sample]
      nextFlush := 5 * nanosPerSecond }
  points := [.outside]
  joinable := true
  phase := .waiting

/-- An event is taken, and before the worker is done with it there is another one in the queue. -/
def refill : List Move := [.take, .load 0 Relay.sample, .send 0, .leave 0, .handle]

theorem overdue_refill (queued : UInt64) : ∃ past,
    Run step (overdue queued) past (overdue (queued + 1)) ∧ past.map (·.2) = refill ∧
      past.countP isOverdue = 1 := by
  have hr : Run.follow step (overdue queued) refill = some (_, overdue (queued + 1)) := rfl
  exact ⟨_, Run.of_follow hr, rfl, rfl⟩

/-- As often as the queue is filled again the flush is put off. -/
theorem overdue_refills (n : Nat) (queued : UInt64) : ∃ past last,
    Run step (overdue queued) past (overdue last) ∧
      past.map (·.2) = (List.replicate n refill).flatten ∧ past.countP isOverdue = n := by
  induction n generalizing queued with
  | zero => exact ⟨[], queued, .start, rfl, rfl⟩
  | succ n ih =>
      obtain ⟨first, hf, hm, hc⟩ := overdue_refill queued
      obtain ⟨later, last, hl, hn, hd⟩ := ih (queued + 1)
      refine ⟨first ++ later, last, hf.trans hl, ?_, ?_⟩
      · rw [List.map_append, hm, hn, List.replicate_succ, List.flatten_cons]
      · rw [List.countP_append, hc, hd, Nat.add_comm]

/-- The queue is filled once more, and then the worker catches up. -/
def caughtUp : Option (List (Threads × Move) × Threads) :=
  Run.follow step (overdue 3) (refill ++ [.take, .handle])

theorem flush_yields_backlog : ∃ past t future u u' v,
    Run step (start (.unscheduled sparse.withDefaults [] [] ⟨0, []⟩) 1) past t ∧
    t.relay.isDue = true ∧ Run step t future u ∧ u.step .expire = some u' ∧
    u'.step .tick = some v ∧ (future.flatMap encoded).length = 2 ∧ future.countP isOverdue = 2 ∧
    future.flatMap encoded = t.relay.queue ++ future.flatMap accepted ∧
    (∀ x ∈ future, x.2 = .take → isOverdue x = true) ∧ v.relay.transmitter.pending = [] := by
  have hb : belated = some (_, overdue 3) := rfl
  have hsome : caughtUp.isSome = true := rfl
  have hmoves : caughtUp.map (fun run => run.1.map (·.2)) = some (refill ++ [.take, .handle]) := rfl
  have hcounts : caughtUp.map (fun run => ((run.1.flatMap encoded).length,
      run.1.countP isOverdue)) = some (2, 2) := rfl
  have hflush : caughtUp.map (fun run => (run.2.step .expire).bind fun t =>
      (t.step .tick).map fun t => t.relay.transmitter.pending) = some (some []) := by decide +kernel
  obtain ⟨⟨future, u⟩, hu⟩ := Option.isSome_iff_exists.1 hsome
  rw [hu] at hmoves hcounts hflush
  obtain ⟨u', he, hflush⟩ := Option.bind_eq_some_iff.1 (Option.some.inj hflush)
  obtain ⟨v, ht, hpending⟩ := Option.map_eq_some_iff.1 hflush
  have h := Run.of_follow hb
  have k := Run.of_follow hu
  have calm : ∀ m ∈ refill ++ [Move.take, .handle], m ≠ .expire := by simp [refill]
  have hn : ∀ x ∈ future, x.2 ≠ .expire := fun x hx =>
    calm x.2 (Option.some.inj hmoves ▸ List.mem_map_of_mem hx)
  have hc := Option.some.inj hcounts
  obtain ⟨-, -, -, delayed, -⟩ := flush_yields h
  obtain ⟨all, early⟩ := delayed rfl rfl future u u' k hn he
  exact ⟨_, overdue 3, future, u, u', v, h, rfl, k, he, ht, congrArg (·.1) hc, congrArg (·.2) hc,
    all, early, hpending⟩

/-- The flush is due, a byte has been gathered for it, and producers who keep the queue filled put
it off for as long as they like: an event that got into the queue after the flush fell due is the
next one that is taken, and the run has continuations without a flush in which any number of events
are. -/
theorem flush_starved : ∃ past t,
    Run step (start (.unscheduled sparse.withDefaults [] [] ⟨0, []⟩) 1) past t ∧
    t.relay.isDue = true ∧ t.relay.transmitter.pending = [1] ∧ (t.step .take).isSome = true ∧
    (∃ x ∈ past, x.1.relay.isDue = true ∧ accepted x = t.relay.queue) ∧
    ∀ n, ∃ future u, Run step t future u ∧ future.countP isOverdue = n ∧
      (∀ x ∈ future, x.2 ≠ .expire ∧ x.2 ≠ .tick) ∧ u.relay.transmitter.pending = [1] ∧
      u.relay.failures = [] := by
  let past := (belated.get rfl).1
  have hr : belated = some (past, overdue 3) := rfl
  have sent : past.get ⟨12, by decide⟩ ∈ past := List.get_mem past _
  refine ⟨past, overdue 3, Run.of_follow hr, rfl, rfl, rfl, ⟨_, sent, rfl, rfl⟩, fun n => ?_⟩
  obtain ⟨future, last, hf, hm, hc⟩ := overdue_refills n 3
  refine ⟨future, overdue last, hf, hc, fun x hx => ?_, rfl, rfl⟩
  have moves : x.2 ∈ (List.replicate n refill).flatten := hm ▸ List.mem_map_of_mem hx
  obtain ⟨cycle, hcycle, hx⟩ := List.mem_flatten.1 moves
  rw [List.eq_of_mem_replicate hcycle] at hx
  have calm : ∀ m ∈ refill, m ≠ .expire ∧ m ≠ .tick := by
    simp [refill]
  exact calm x.2 hx

end Threads
end Telemetry
