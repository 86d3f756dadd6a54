import Telemetry.Proofs.Relay.Closing
import Telemetry.Proofs.Relay.Delivery
/-!
The account of a relay: where every event that was offered to it has gone.

An offered event is accepted or turned away, and counted and reported accordingly. The accepted ones
are handed to the encoder in their order: what they append is flushed or pending, and what the encoder
refuses is reported. A worker that reaches its end has handed over all of them. One that is taken down
has not, if events were in the queue at that moment; this can only happen while it handles an event,
since a flush and the end come when the queue is empty.
-/

namespace Telemetry
namespace Relay

/-- Handling the event in hand takes the worker down, and further events wait in the queue. -/
def Loses : Relay × Move → Prop
  | (r, .handle) => r.queue ≠ [] ∧ ∃ e, r.stage = .holding e ∧ r.Topples e
  | _ => False

theorem loses_iff {r r' : Relay} {m : Move} (h : r.step m = some r') :
    Loses (r, m) ↔ r.queue ≠ [] ∧ r.stage ≠ .crashed ∧ r'.stage = .crashed := by
  have other (hm : m ≠ .handle ∧ m ≠ .tick ∧ m ≠ .finish) (hl : ¬ Loses (r, m)) :
      Loses (r, m) ↔ r.queue ≠ [] ∧ r.stage ≠ .crashed ∧ r'.stage = .crashed :=
    ⟨fun hx => absurd hx hl, fun hx => absurd (crashed_of_step h hm hx.2.2) hx.2.1⟩
  cases m with
  | handle =>
      obtain ⟨e, hs⟩ := holding_of_handle h
      have hn : r.stage ≠ .crashed := fun hc => nomatch hs.symm.trans hc
      show _ ∧ (∃ e, _ ∧ _) ↔ _
      rw [exists_holding hs, ← handle_crashed_iff hs h, and_iff_right hn]
  | tick =>
      obtain ⟨-, hq, -⟩ := tick?_eq_some h
      exact ⟨nofun, fun hx => absurd hq hx.1⟩
  | finish =>
      obtain ⟨-, hq, -⟩ := finish?_eq_some h
      exact ⟨nofun, fun hx => absurd hq hx.1⟩
  | take => exact other ⟨nofun, nofun, nofun⟩ id
  | submit e => exact other ⟨nofun, nofun, nofun⟩ id
  | close => exact other ⟨nofun, nofun, nofun⟩ id
  | wait nanos => exact other ⟨nofun, nofun, nofun⟩ id

/-! ## Whole runs -/

variable {s : Settings} {reactions : List Reaction} {answers : List DialAnswer} {clock : Clock}
  {past : List (Relay × Move)} {r : Relay}

theorem run_whole_iff (h : Run step (start s reactions answers clock) past r) :
    past.flatMap accepted = past.flatMap encoded ++ r.inHand ++ r.queue ↔
      ∀ x ∈ past, ¬ Loses x :=
  changes_whole_iff id step_change loses_iff (order_start s reactions answers clock) h

theorem refused_start (s : Settings) (reactions : List Reaction) (answers : List DialAnswer)
    (clock : Clock) : Refused [] (start s reactions answers clock) := by
  show encodeReports (unscheduled s reactions answers clock).schedule.failures = []
  rw [failures_schedule]
  rfl

theorem run_refused (h : Run step (start s reactions answers clock) past r) :
    Refused (past.flatMap encoded) r :=
  run_invariant (P := fun _ _ encoded r => Refused encoded r)
    (refused_start s reactions answers clock) (fun h c => h.change c) h

/-- The queue never holds more events than the settings allow; every call is accepted, finds the
queue full or finds it closed, as the relay's state decides, and is counted and reported
accordingly. The encoder gets the accepted events in their order: what it appends for them is flushed
or pending, and what it refuses is reported. Those that it has not got are in the worker's hand or in
the queue, exactly as long as no move took the worker down with events in the queue; and when the
worker is gone, the encoder has got all of them, and the count of accepted events is theirs, again
exactly if no move lost what was in the queue. Only an encoder that crashes, or a clock that cannot
show a moment, takes the worker down. -/
theorem queue_accounting (h : Run step (ofSettings s reactions answers clock) past r) :
    r.queue.length ≤ s.withDefaults.queueSize ∧
    (∀ e,
      (Accepts r e (r.submit e) ↔ r.isOpen = true ∧ r.isServing = true ∧
        r.queue.length < s.withDefaults.queueSize) ∧
      (RefusesFull r e (r.submit e) ↔ r.isOpen = true ∧ r.isServing = true ∧
        r.queue.length = s.withDefaults.queueSize) ∧
      (RefusesClosed r e (r.submit e) ↔ r.isOpen = false ∨ r.isServing = false)) ∧
    Tally (past.flatMap offered) (past.flatMap accepted) r ∧
    past.flatMap encoded <+: past.flatMap accepted ∧
    (chunks s.codec (past.flatMap encoded)).flatten =
      r.transmitter.flushed.flatten ++ r.transmitter.pending ∧
    encodeReports r.failures = refusals s.codec (past.flatMap encoded) ∧
    (past.flatMap accepted = past.flatMap encoded ++ r.inHand ++ r.queue ↔
      ∀ x ∈ past, ¬ Loses x) ∧
    (r.isServing = false →
      (past.flatMap encoded = past.flatMap accepted ∧
          r.transmitter.counters.queued = UInt64.ofNat (past.flatMap encoded).length ↔
        ∀ x ∈ past, ¬ Loses x)) ∧
    (r.stage ≠ .crashed → ∀ x ∈ past, ¬ Loses x) ∧
    (r.stage = .crashed → (∃ e, s.codec e = .crashed) ∨ r.Late) := by
  have ht := run_terms h
  have ho := run_order h
  have hw := run_whole_iff h
  obtain ⟨rest, hl⟩ := run_shipped h
  have hcap : r.capacity = s.withDefaults.queueSize := congrArg (·.2.1) ht
  have hcodec : r.codec = s.codec := congrArg (·.1) ht
  have hroom : r.isFull = false ↔ r.queue.length < s.withDefaults.queueSize := by
    rw [isFull, hcap, decide_eq_false_iff_not, Nat.not_le]
  have hfull : r.isFull = true ↔ r.queue.length = s.withDefaults.queueSize := by
    have hb := ho.bounded
    rw [isFull, decide_eq_true_iff]
    omega
  refine ⟨hcap ▸ ho.bounded, fun e => ?_, run_tally h, ho.served, hcodec ▸ hl.flatten,
    hcodec ▸ run_refused h, hw, fun hg => ?_, fun hn => hw.1 (ho.whole hn), ho.fatal hcodec⟩
  · rw [← hroom, ← hfull]
    exact submit_outcome r e
  · rw [inHand_gone hg, ho.drained hg, List.append_nil, List.append_nil] at hw
    rw [← hw]
    constructor
    · intro hx
      exact hx.1.symm
    · intro hx
      rw [← hx]
      exact ⟨rfl, (run_tally h).queued⟩

def crowd : Option (List (Relay × Move) × Relay) :=
  Run.follow step (ofSettings cramped [] [] ⟨0, []⟩)
    [.submit sample, .submit sample, .take, .handle, .close, .submit sample, .finish]

theorem queue_accounting_crowd : ∃ past r,
    Run step (ofSettings cramped [] [] ⟨0, []⟩) past r ∧ r.stage = .ended ∧
    (past.flatMap offered).length = 3 ∧ r.reports .queueFull = 1 ∧ r.reports .queueClosed = 1 ∧
    r.reports .encode = 1 ∧ (∀ x ∈ past, ¬ Loses x) ∧
    past.flatMap encoded = past.flatMap accepted := by
  have hsome : crowd.isSome = true := by decide +kernel
  have hend : crowd.map (fun run => run.2.hasEnded) = some true := by decide +kernel
  have hcounts : crowd.map (fun run => ((run.1.flatMap offered).length,
      run.2.reports .queueFull, run.2.reports .queueClosed, run.2.reports .encode)) =
      some (3, 1, 1, 1) := by
    decide +kernel
  obtain ⟨⟨past, r⟩, hr⟩ := Option.isSome_iff_exists.1 hsome
  rw [hr] at hend hcounts
  have h := Run.of_follow hr
  have hstage : r.stage = .ended := stage_of_hasEnded (Option.some.inj hend)
  have hc := Option.some.inj hcounts
  obtain ⟨-, -, -, -, -, -, -, hall, hkept, -⟩ := queue_accounting h
  have hnone := hkept fun hx => nomatch hstage.symm.trans hx
  exact ⟨past, r, h, hstage, congrArg (·.1) hc, congrArg (·.2.1) hc, congrArg (·.2.2.1) hc,
    congrArg (·.2.2.2) hc, hnone, ((hall (isServing_ended hstage)).2 hnone).1⟩

/-- The flush of the first event takes the worker down, and the second one is still in the queue. -/
def shortfall : Option (List (Relay × Move) × Relay) :=
  Run.follow step (ofSettings Threads.boundless [] [] ⟨0, []⟩)
    [.submit sample, .take, .submit sample, .handle, .close]

theorem accounting_short_unreachable_deadline : ∃ past r,
    Run step (ofSettings Threads.boundless [] [] ⟨0, []⟩) past r ∧
    (∀ e, Threads.boundless.codec e ≠ .crashed) ∧ r.isServing = false ∧
    (past.flatMap accepted).length = 2 ∧ r.transmitter.counters.queued = 2 ∧
    (past.flatMap encoded).length = 1 ∧ r.failures.length = 0 := by
  have hsome : shortfall.isSome = true := by decide +kernel
  have hserving : shortfall.map (fun run => run.2.isServing) = some false := by decide +kernel
  have hcounts : shortfall.map (fun run => ((run.1.flatMap accepted).length,
      run.2.transmitter.counters.queued, (run.1.flatMap encoded).length,
      run.2.failures.length)) = some (2, 2, 1, 0) := by decide +kernel
  obtain ⟨⟨past, r⟩, hr⟩ := Option.isSome_iff_exists.1 hsome
  rw [hr] at hserving hcounts
  have hc := Option.some.inj hcounts
  exact ⟨past, r, Run.of_follow hr, fun _ => nofun, Option.some.inj hserving, congrArg (·.1) hc,
    congrArg (·.2.1) hc, congrArg (·.2.2.1) hc, congrArg (·.2.2.2) hc⟩

end Relay
end Telemetry
