import Telemetry.Proofs.Relay.Closing
import Telemetry.Proofs.Relay.Delivery
/-!
No byte of a chunk gets lost on the way, and what is left at the end is reported.

At any time the chunks are the blocks that were flushed, then what is pending. The worker ends with
nothing pending, or its last flush has failed; then that failure and the loss of what is pending are
its last two reports. A worker that is taken down before its end reports nothing, so what is pending at
that moment is lost without a trace: `Strands` says by which moves.
-/

namespace Telemetry
namespace Relay

/-- The failures that the worker has reported, in order. -/
def workerReports (r : Relay) : List Failure := r.failures.filter fun f => !f.isDropped

def NothingDiscarded (fs : List Failure) : Prop := ∀ f ∈ fs, f.kind ≠ .discard

/-- Nothing is pending and nothing was discarded, or the last two reports are that so many bytes
were not written and that they are discarded. -/
def Settled (r : Relay) : Prop :=
  r.transmitter.pending = [] ∧ NothingDiscarded r.workerReports ∨
    r.transmitter.pending ≠ [] ∧ ∃ before cause,
      r.workerReports = before ++ [.write r.transmitter.pending.length cause,
        .discard r.transmitter.pending.length discardReason] ∧
      NothingDiscarded before

/-- Only the worker's end discards anything. -/
structure Ending (r : Relay) : Prop where
  silent : r.stage ≠ .ended → NothingDiscarded r.workerReports
  settled : r.stage = .ended → r.Settled

theorem NothingDiscarded.append {fs gs : List Failure} (h : NothingDiscarded fs)
    (k : NothingDiscarded gs) : NothingDiscarded (fs ++ gs) := by
  intro f hf
  rcases List.mem_append.1 hf with hf | hf
  · exact h f hf
  · exact k f hf

theorem nothingDiscarded_of_isWork {fs : List Failure} (h : ∀ f ∈ fs, f.IsWork) :
    NothingDiscarded fs :=
  fun f hf => Failure.kind_of_isWork (h f hf)

theorem workerReports_append {r r' : Relay} {fs : List Failure}
    (h : r'.failures = r.failures ++ fs) :
    r'.workerReports = r.workerReports ++ fs.filter fun f => !f.isDropped := by
  unfold workerReports
  rw [h, List.filter_append]

theorem workerReports_work {r r' : Relay} {fs : List Failure}
    (h : r'.failures = r.failures ++ fs) (hf : ∀ f ∈ fs, f.isDropped = false) :
    r'.workerReports = r.workerReports ++ fs := by
  rw [workerReports_append h, List.filter_eq_self.2]
  intro f hm
  rw [hf f hm]
  rfl

theorem workerReports_dropped {r r' : Relay} {f : Failure} (h : r'.failures = r.failures ++ [f])
    (hf : f.isDropped = true) : r'.workerReports = r.workerReports := by
  have hd : [f].filter (fun g => !g.isDropped) = [] := by
    rw [List.filter_cons, hf]
    rfl
  rw [workerReports_append h, hd, List.append_nil]

theorem Settled.congr {r r' : Relay} (h : r.Settled)
    (hp : r'.transmitter.pending = r.transmitter.pending)
    (hw : r'.workerReports = r.workerReports) : r'.Settled := by
  unfold Settled
  rw [hp, hw]
  exact h

namespace Ending

variable {r r' : Relay}

theorem congr (h : Ending r) (hs : r'.stage = r.stage)
    (hp : r'.transmitter.pending = r.transmitter.pending)
    (hw : r'.workerReports = r.workerReports) : Ending r' where
  silent := fun hn => by
    rw [hw]
    exact h.silent (hs ▸ hn)
  settled := fun he => (h.settled (hs.symm.trans he)).congr hp hw

theorem works (h : Ending r) (hs : r.stage = .idle) (w : Works r r') : Ending r' := by
  obtain ⟨fs, hf, hw⟩ := w.reports
  have hn : r.stage ≠ .ended := fun he => nomatch hs.symm.trans he
  refine ⟨fun _ => ?_, fun he => ?_⟩
  · rw [workerReports_work hf fun f hm => Failure.isDropped_of_isWork (hw f hm)]
    exact (h.silent hn).append (nothingDiscarded_of_isWork hw)
  · rcases w.queue with ⟨hq, -⟩ | ⟨hq, -⟩
    · exact absurd (hq.symm.trans he) hn
    · exact nomatch hq.symm.trans he

end Ending

/-! ## The last flush -/

theorem ensureConnected_connected (r : Relay) :
    ∃ s, r.ensureConnected.transmitter.connection = some s := by
  obtain ⟨s, _, _, ht⟩ := transmitter_ensureConnected r
  exact ⟨s, by rw [ht]⟩

/-- Over a connection, and with something pending, a whole flush succeeds, or it fails and is
reported last, or it takes the worker down. -/
theorem conclude_flushAll {r : Relay} {s : Sink} (hc : r.transmitter.connection = some s)
    (hp : r.transmitter.pending ≠ [])
    (h : (r.conclude r.transmitter.flushAll).stage = .idle) :
    (r.conclude r.transmitter.flushAll).transmitter.pending = [] ∨
      (r.conclude r.transmitter.flushAll).transmitter.pending = r.transmitter.pending ∧
      ∃ cause, (r.conclude r.transmitter.flushAll).failures =
        r.failures ++ [.write r.transmitter.pending.length cause] := by
  have ho := r.transmitter.flush_outcome r.transmitter.pending.length
  unfold Transmitter.flushAll at h ⊢
  generalize r.transmitter.flush r.transmitter.pending.length = result at h ho ⊢
  cases ho with
  | idle hi =>
    rcases hi with hi | hi
    · exact nomatch hc.symm.trans hi
    · exact absurd (List.length_eq_zero_iff.1 hi) hp
  | late clock hc ht hl => exact nomatch h
  | flushed s' clock hc ht hb hu hsound => exact .inl List.drop_length
  | failed s' clock e hc ht hb taken part hu hstrained => exact .inr ⟨rfl, e, rfl⟩

theorem finalFlush_left {r : Relay} (h : r.finalFlush.stage = .idle) :
    r.finalFlush.transmitter.pending = [] ∨
      r.finalFlush.transmitter.pending ≠ [] ∧ ∃ fs cause, r.finalFlush.failures =
        r.failures ++ fs ++ [.write r.finalFlush.transmitter.pending.length cause] ∧
      ∀ f ∈ fs, f.IsWork := by
  unfold finalFlush at h ⊢
  split
  · next hp => exact .inl (List.isEmpty_iff.1 hp)
  · next hp =>
    rw [if_neg hp] at h
    have hn : r.transmitter.pending ≠ [] := fun he => hp (List.isEmpty_iff.2 he)
    obtain ⟨s, hc⟩ := r.ensureConnected_connected
    have hq := r.pending_ensureConnected
    have hw := works_ensureConnected r
    rcases conclude_flushAll hc (hq ▸ hn) h with he | ⟨he, cause, hf⟩
    · exact .inl he
    · obtain ⟨fs, hfs, hwork⟩ := hw.reports
      refine .inr ⟨he ▸ hq ▸ hn, fs, cause, ?_, hwork⟩
      rw [hf, hfs]
      dsimp only
      rw [he]

theorem Ending.windUp {r : Relay} (h : Ending r) (hs : r.stage = .idle) : Ending r.windUp := by
  rcases windUp_cases hs with ⟨-, hw⟩ | ⟨hi, hw⟩
  · rw [hw]
    exact h.works hs (works_finalFlush r)
  · rw [hw]
    refine ⟨fun hn => absurd rfl hn, fun _ => ?_⟩
    have hn : r.stage ≠ .ended := fun he => nomatch hs.symm.trans he
    have hf := h.works hs (works_finalFlush r)
    have hp : r.finalFlush.retire.transmitter.pending = r.finalFlush.transmitter.pending := by
      show r.finalFlush.discardRest.transmitter.pending = _
      rw [transmitter_discardRest]
    -- With nothing left the reports stay as they are. Otherwise the last flush has reported its failure
    -- with the length of what is left, and the loss is reported right behind it.
    rcases finalFlush_left hi with he | ⟨he, fs, cause, hr, hwork⟩
    · have hd : r.finalFlush.discardRest = r.finalFlush := by
        rw [discardRest, if_pos (List.isEmpty_iff.2 he)]
      have hq : r.finalFlush.retire.workerReports = r.finalFlush.workerReports := by
        show r.finalFlush.discardRest.workerReports = _
        rw [hd]
      refine .inl ⟨hp.trans he, ?_⟩
      rw [hq]
      exact hf.silent fun hx => nomatch hi.symm.trans hx
    · have hd : r.finalFlush.retire.failures = r.finalFlush.failures ++
          [.discard r.finalFlush.transmitter.pending.length discardReason] := by
        show r.finalFlush.discardRest.failures = _
        rw [discardRest, if_neg fun hx => he (List.isEmpty_iff.1 hx)]
        rfl
      refine .inr ⟨hp ▸ he, r.workerReports ++ fs, cause, ?_,
        (h.silent hn).append (nothingDiscarded_of_isWork hwork)⟩
      rw [hr, List.append_assoc, List.append_assoc] at hd
      rw [hp, List.append_assoc]
      refine workerReports_work hd fun f hm => ?_
      rcases List.mem_append.1 hm with hm | hm
      · exact Failure.isDropped_of_isWork (hwork f hm)
      · rcases List.mem_cons.1 hm with rfl | hm
        · rfl
        · rw [List.mem_singleton.1 hm]
          rfl

theorem Ending.change {r r' : Relay} {offered accepted encoded : List Event} (h : Ending r)
    (c : Change r offered accepted encoded r') : Ending r' := by
  cases c with
  | handle e holding handled =>
      have hi : Ending { r with stage := .idle } :=
        ⟨fun _ => h.silent fun he => (nomatch holding.symm.trans he), nofun⟩
      exact hi.works rfl (works_handle holding handled)
  | schedule idle => exact h.works idle (works_schedule r)
  | flush idle => exact h.works idle (works_flushDue r)
  | windUp idle drained => exact h.windUp idle
  | take e queue idle waiting =>
      exact ⟨fun _ => h.silent fun he => (nomatch idle.symm.trans he), nofun⟩
  | refuseFull e serving full =>
      exact h.congr rfl rfl (workerReports_dropped (refuses_refuseFull r e).failures rfl)
  | refuseClosed e =>
      exact h.congr rfl rfl (workerReports_dropped (refuses_refuseClosed r e).failures rfl)
  | stay => exact h
  | accept => exact h.congr rfl rfl rfl
  | close => exact h.congr rfl rfl rfl
  | wait => exact h.congr rfl rfl rfl

/-! ## What is left behind -/

/-- The move takes the worker down, and bytes that it has gathered are left behind. -/
def Strands : Relay × Move → Prop
  | (r, .handle) => ∃ e, r.stage = .holding e ∧ r.Topples e ∧
      r.transmitter.pending ++ (r.codec e).bytes ≠ []
  | (r, .tick) => (r.transmitter.pending ≠ [] ∧ r.ensureConnected.NoDeadline) ∨
      (r.flushed.transmitter.pending ≠ [] ∧ r.flushed.NoNextFlush)
  | (r, .finish) => r.transmitter.pending ≠ [] ∧ r.ensureConnected.NoDeadline
  | _ => False

theorem strands_tick_iff {r : Relay} (h : r.stage = .idle) :
    Strands (r, .tick) ↔ r.flushDue.stage = .crashed ∧ r.flushDue.transmitter.pending ≠ [] := by
  have hf := flushed_crashed_iff h
  show _ ∨ _ ↔ _
  rw [← hf, flushDue_eq]
  rcases (works_flushed r).queue with ⟨hs, -⟩ | ⟨hc, -⟩
  · -- The flush is over, and it is the next one that cannot have its moment.
    have hi := hs.trans h
    rw [if_pos (isServing_idle hi), schedule_crashed_iff hi, pending_schedule]
    constructor
    · intro hx
      rcases hx with hx | hx
      · exact nomatch hi.symm.trans hx
      · exact hx.symm
    · intro hx
      exact .inr hx.symm
  · rw [if_neg (Bool.eq_false_iff.1 (isServing_crashed hc)), pending_flushed_crashed h hc]
    constructor
    · intro _
      exact ⟨hc, (hf.1 hc).1⟩
    · intro _
      exact .inl hc

theorem strands_finish_iff {r : Relay} (h : r.stage = .idle) :
    Strands (r, .finish) ↔ r.windUp.stage = .crashed ∧ r.windUp.transmitter.pending ≠ [] := by
  have hf := finalFlush_crashed_iff h
  show _ ∧ _ ↔ _
  rw [← hf]
  rcases windUp_cases h with ⟨hc, hw⟩ | ⟨hi, hw⟩
  · have hp : r.transmitter.pending ≠ [] := (hf.1 hc).1
    have he : r.finalFlush = r.flushed := if_neg fun he => hp (List.isEmpty_iff.1 he)
    rw [hw, he]
    rw [he] at hc
    rw [pending_flushed_crashed h hc]
    exact ⟨fun _ => ⟨hc, hp⟩, fun _ => hc⟩
  · rw [hw]
    exact ⟨fun hc => (nomatch hi.symm.trans hc), fun hx => nomatch hx.1⟩

theorem strands_iff {r r' : Relay} {m : Move} (h : r.step m = some r') :
    Strands (r, m) ↔
      r.stage ≠ .crashed ∧ r'.stage = .crashed ∧ r'.transmitter.pending ≠ [] := by
  have other (hm : m ≠ .handle ∧ m ≠ .tick ∧ m ≠ .finish) (hl : ¬ Strands (r, m)) :
      Strands (r, m) ↔ r.stage ≠ .crashed ∧ r'.stage = .crashed ∧ r'.transmitter.pending ≠ [] :=
    ⟨fun hx => absurd hx hl, fun hx => absurd (crashed_of_step h hm hx.2.1) hx.1⟩
  cases m with
  | handle =>
      obtain ⟨e, hs⟩ := holding_of_handle h
      have hn : r.stage ≠ .crashed := fun hc => nomatch hs.symm.trans hc
      show (∃ e, _ ∧ _) ↔ _
      rw [exists_holding hs, ← handle_crashed_iff hs h, and_iff_right hn]
      refine and_congr_right fun hc => ?_
      rw [pending_handle_crashed hs h hc]
  | tick =>
      obtain ⟨hs, -, -, -, rfl⟩ := tick?_eq_some h
      have hn : r.stage ≠ .crashed := fun hc => nomatch hs.symm.trans hc
      rw [strands_tick_iff hs, and_iff_right hn]
  | finish =>
      obtain ⟨hs, -, -, rfl⟩ := finish?_eq_some h
      have hn : r.stage ≠ .crashed := fun hc => nomatch hs.symm.trans hc
      rw [strands_finish_iff hs, and_iff_right hn]
  | take => exact other ⟨nofun, nofun, nofun⟩ id
  | submit e => exact other ⟨nofun, nofun, nofun⟩ id
  | close => exact other ⟨nofun, nofun, nofun⟩ id
  | wait nanos => exact other ⟨nofun, nofun, nofun⟩ id

/-- Nothing is gathered or flushed once the worker is down. -/
theorem Change.pending_crashed {r r' : Relay} {offered accepted encoded : List Event}
    (c : Change r offered accepted encoded r') (h : r.stage = .crashed) :
    r'.transmitter.pending = r.transmitter.pending := by
  cases c with
  | handle e holding => exact nomatch holding.symm.trans h
  | take e queue idle => exact nomatch idle.symm.trans h
  | schedule idle => exact nomatch idle.symm.trans h
  | flush idle => exact nomatch idle.symm.trans h
  | windUp idle => exact nomatch idle.symm.trans h
  | stay => rfl
  | accept => rfl
  | refuseFull => rfl
  | refuseClosed => rfl
  | close => rfl
  | wait => rfl

/-! ## Whole runs -/

variable {s : Settings} {reactions : List Reaction} {answers : List DialAnswer} {clock : Clock}
  {past : List (Relay × Move)} {r : Relay}

theorem ending_start (s : Settings) (reactions : List Reaction) (answers : List DialAnswer)
    (clock : Clock) : Ending (start s reactions answers clock) := by
  have h : Ending (unscheduled s reactions answers clock) :=
    ⟨fun _ f hf => absurd hf List.not_mem_nil, nofun⟩
  exact h.works rfl (works_start s reactions answers clock)

theorem run_ending (h : Run step (start s reactions answers clock) past r) : Ending r :=
  run_invariant (P := fun _ _ _ r => Ending r) (ending_start s reactions answers clock)
    (fun h c => h.change c) h

/-- A worker that was taken down has left nothing behind exactly if no move has stranded any bytes. -/
theorem run_stranded_iff (h : Run step (start s reactions answers clock) past r) :
    (r.stage = .crashed → r.transmitter.pending = []) ↔ ∀ x ∈ past, ¬ Strands x := by
  induction h with
  | start =>
      constructor
      · intro _ x hx
        exact absurd hx List.not_mem_nil
      · intro _ _
        exact pending_schedule (unscheduled s reactions answers clock)
  | @next past u v m before enabled ih =>
      have c := step_change enabled
      rw [List.forall_mem_append, List.forall_mem_singleton, ← ih, strands_iff enabled]
      by_cases hu : u.stage = .crashed
      · -- The worker was down before, so nothing has changed since.
        rw [c.pending_crashed hu]
        constructor
        · intro hx
          exact ⟨fun _ => hx (c.down hu).1, fun hy => hy.1 hu⟩
        · intro hx _
          exact hx.1 hu
      · constructor
        · intro hx
          exact ⟨fun hc => absurd hc hu, fun hy => hy.2.2 (hx hy.2.1)⟩
        · intro hx hv
          exact Classical.byContradiction fun hp => hx.2 ⟨hu, hv, hp⟩

/-- Once the worker is gone, everything is settled exactly if no move has stranded any bytes. -/
theorem settled_iff (h : Run step (start s reactions answers clock) past r)
    (hg : r.isServing = false) : r.Settled ↔ ∀ x ∈ past, ¬ Strands x := by
  have he := run_ending h
  rw [← run_stranded_iff h]
  rcases stage_of_gone hg with hs | hs
  · exact ⟨fun _ hc => (nomatch hs.symm.trans hc), fun _ => he.settled hs⟩
  · have hn : NothingDiscarded r.workerReports := he.silent fun hc => nomatch hs.symm.trans hc
    constructor
    · intro hk _
      rcases hk with ⟨hp, -⟩ | ⟨-, before, cause, hr, -⟩
      · exact hp
      · -- Its last report would be one that only the end makes.
        rw [hr] at hn
        refine absurd rfl (hn (.discard r.transmitter.pending.length discardReason) ?_)
        exact List.mem_append_right before (List.mem_cons_of_mem _ (List.mem_singleton_self _))
    · intro hk
      exact .inl ⟨hk hs, hn⟩

/-- What the encoder appended, event by event, is what all successful flushes moved, then what is
pending, and the counts are those of these flushes. At its end the worker has written everything, or
it reports its failed last flush and then the loss of exactly what is pending; before that it reports
no loss. So a worker that is gone has settled everything exactly if none of the moves took it down with
bytes left behind. Only an encoder that crashes, or a clock that cannot show a moment, takes it down. -/
theorem byte_conservation (h : Run step (ofSettings s reactions answers clock) past r) :
    (chunks s.codec (past.flatMap encoded)).flatten =
      r.transmitter.flushed.flatten ++ r.transmitter.pending ∧
    r.transmitter.counters.flushes = UInt64.ofNat r.transmitter.flushed.length ∧
    r.transmitter.counters.bytesWritten = UInt64.ofNat r.transmitter.flushed.flatten.length ∧
    (r.stage ≠ .ended → NothingDiscarded r.workerReports) ∧
    (r.stage = .ended → r.Settled) ∧
    (r.isServing = false → (r.Settled ↔ ∀ x ∈ past, ¬ Strands x)) ∧
    (r.stage = .crashed → (∃ e, s.codec e = .crashed) ∨ r.Late) := by
  obtain ⟨rest, hl⟩ := run_shipped h
  have hcodec : r.codec = s.codec := congrArg (·.1) (run_terms h)
  have he := run_ending h
  exact ⟨hcodec ▸ hl.flatten, hl.flushes, hl.bytesWritten, he.silent, he.settled,
    settled_iff h, (run_order h).fatal hcodec⟩

/-- A connection that takes everything and cannot be flushed. -/
def clogged : Sink := { Sink.ideal with flushes := .constant ⟨0, some (.bare .brokenPipe)⟩ }

def patient : Settings := .ofTarget (fun _ => .done [1, 2]) "udp" "localhost"

def loss : Option (List (Relay × Move) × Relay) :=
  Run.follow step (ofSettings patient [] [.accept clogged] ⟨0, []⟩)
    [.submit sample, .take, .handle, .close, .finish]

theorem byte_conservation_loss : ∃ past r,
    Run step (ofSettings patient [] [.accept clogged] ⟨0, []⟩) past r ∧ r.stage = .ended ∧
    r.transmitter.pending = [1, 2] ∧ r.Settled ∧ (∀ x ∈ past, ¬ Strands x) ∧
    (chunks patient.codec (past.flatMap encoded)).flatten =
      r.transmitter.flushed.flatten ++ r.transmitter.pending := by
  have hsome : loss.isSome = true := by decide +kernel
  have hend : loss.map (fun run => run.2.hasEnded) = some true := by decide +kernel
  have hleft : loss.map (fun run => run.2.transmitter.pending) = some [1, 2] := by
    decide +kernel
  obtain ⟨⟨past, r⟩, hr⟩ := Option.isSome_iff_exists.1 hsome
  rw [hr] at hend hleft
  have h := Run.of_follow hr
  have hstage : r.stage = .ended := stage_of_hasEnded (Option.some.inj hend)
  obtain ⟨hbytes, -, -, -, hsettled, hkept, -⟩ := byte_conservation h
  have hs := hsettled hstage
  exact ⟨past, r, h, hstage, Option.some.inj hleft, hs, (hkept (isServing_ended hstage)).1 hs,
    hbytes⟩

/-- The flush of the only event has no deadline that a clock could show. -/
def stranding : Option (List (Relay × Move) × Relay) :=
  Run.follow step (ofSettings Threads.boundless [] [] ⟨0, []⟩) [.submit sample, .take, .handle]

theorem bytes_stranded_unreachable_deadline : ∃ past r,
    Run step (ofSettings Threads.boundless [] [] ⟨0, []⟩) past r ∧
    (∀ e, Threads.boundless.codec e ≠ .crashed) ∧ r.isServing = false ∧
    r.transmitter.pending = [1] ∧ r.failures = [] ∧ ¬ r.Settled := by
  have hsome : stranding.isSome = true := by decide +kernel
  have hserving : stranding.map (fun run => run.2.isServing) = some false := by decide +kernel
  have hleft : stranding.map (fun run => run.2.transmitter.pending) = some [1] := by decide +kernel
  have hreports : stranding.map (fun run => run.2.failures.length) = some 0 := by decide +kernel
  obtain ⟨⟨past, r⟩, hr⟩ := Option.isSome_iff_exists.1 hsome
  rw [hr] at hserving hleft hreports
  have hp : r.transmitter.pending = [1] := Option.some.inj hleft
  have hf : r.failures = [] := List.length_eq_zero_iff.1 (Option.some.inj hreports)
  refine ⟨past, r, Run.of_follow hr, fun _ => nofun, Option.some.inj hserving, hp, hf, ?_⟩
  rintro (⟨hn, -⟩ | ⟨-, before, cause, hw, -⟩)
  · exact nomatch hp.symm.trans hn
  · rw [workerReports, hf] at hw
    exact absurd hw.symm (List.append_ne_nil_of_right_ne_nil before (List.cons_ne_nil _ _))

end Relay
end Telemetry
