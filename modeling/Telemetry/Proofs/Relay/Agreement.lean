import Telemetry.Proofs.Relay.Closing
import Telemetry.Proofs.Relay.Counting
/-!
What a relay counts, what it reports and what it is connected to agree.

Every failure that is counted is reported in the same step. Each dial call ends with a connection or
with a report, and each connection but the one in use was given up by a flush that failed and was
reported. The one exception is a step that takes the worker down while it has a connection: that one
is closed with nothing said about it. `counts_agree` says by which moves.
-/

namespace Telemetry
namespace Relay

/-! ## Every connection is given up by a failed flush -/

/-- So many connections were given up with no failed flush. -/
def Excess (n : Nat) (r : Relay) : Prop := r.transmitter.retired.length = r.reports .write + n

namespace Excess

variable {r r' : Relay} {n : Nat}

theorem same (h : r.Excess n) (hr : r'.reports .write = r.reports .write)
    (ht : r'.transmitter.retired.length = r.transmitter.retired.length) : r'.Excess n := by
  unfold Excess
  rw [hr, ht]
  exact h

theorem ensureConnected (h : r.Excess n) : r.ensureConnected.Excess n := by
  rcases r.ensureConnected_cases with ⟨s, -, he⟩ | ⟨-, s, -, hd⟩
  · rw [he]
    exact h
  · obtain ⟨fs, hf, hk⟩ := hd.reports
    obtain ⟨dialFailed, clock, ht⟩ := hd.transmitter
    exact h.same (reports_other hf hk nofun) (by rw [ht])

/-- A connection in use is lost with the worker, and otherwise given up by a failed flush only. -/
theorem conclude (h : r.Excess n) (hs : r.stage = .idle) {s : Sink}
    (hc : r.transmitter.connection = some s) {result : Verdict × Transmitter}
    (k : r.transmitter.Counts result) :
    (r.conclude result).stage = .idle ∧ (r.conclude result).Excess n ∨
      (r.conclude result).stage = .crashed ∧ (r.conclude result).Excess (n + 1) := by
  obtain ⟨verdict, t⟩ := result
  have hr : (r.conclude (verdict, t)).reports .write =
      r.reports .write + verdict.reports .write := reports_conclude r (verdict, t) .write
  have ht : t.retired.length = r.reports .write + verdict.reports .write + n := by
    have hk : t.retired.length = _ + verdict.reports .write := k.retired
    rw [hk, h]
    omega
  cases verdict with
  | done => exact .inl ⟨hs, ht.trans (congrArg (· + n) hr.symm)⟩
  | failed f => exact .inl ⟨hs, ht.trans (congrArg (· + n) hr.symm)⟩
  | crashed =>
      have hk : t.connection = some s := (k.kept rfl).trans hc
      refine .inr ⟨rfl, ?_⟩
      show (t.retired ++ (t.connection.map Sink.drop).toList).length = _
      rw [hk, Option.map_some, Option.toList_some, List.length_append, List.length_singleton, ht, hr]
      omega

theorem flushed (h : r.Excess n) (hs : r.stage = .idle) :
    r.flushed.stage = .idle ∧ r.flushed.Excess n ∨
      r.flushed.stage = .crashed ∧ r.flushed.Excess (n + 1) := by
  obtain ⟨s, hc⟩ := r.ensureConnected_connected
  exact h.ensureConnected.conclude ((stage_ensureConnected r).trans hs) hc
    (Transmitter.counts_flush _ _)

theorem finalFlush (h : r.Excess n) (hs : r.stage = .idle) :
    r.finalFlush.stage = .idle ∧ r.finalFlush.Excess n ∨
      r.finalFlush.stage = .crashed ∧ r.finalFlush.Excess (n + 1) := by
  unfold Relay.finalFlush
  split
  · exact .inl ⟨hs, h⟩
  · exact h.flushed hs

/-- With no moment for the next flush the connection in use is lost with the worker. -/
theorem schedule (h : r.Excess n) :
    r.schedule.stage = r.stage ∧ r.schedule.Excess n ∨
      r.schedule.stage = .crashed ∧
        r.schedule.Excess (n + r.transmitter.connection.toList.length) := by
  have hr := reports_same (failures_schedule r) .write
  unfold Excess
  rw [hr]
  unfold Relay.schedule
  dsimp only
  split
  · refine .inr ⟨rfl, ?_⟩
    show (r.transmitter.retired ++ (r.transmitter.connection.map Sink.drop).toList).length = _
    rw [List.length_append, h]
    cases r.transmitter.connection with
    | none => rfl
    | some s => rfl
  · exact .inl ⟨rfl, h⟩

/-- The worker's end closes the connection in use. -/
theorem retire (h : r.Excess n) : r.retire.Excess n ∨ r.retire.Excess (n + 1) := by
  have hr : r.retire.reports .write = r.reports .write := by
    show r.discardRest.reports .write = _
    unfold discardRest
    split
    · rfl
    · have hl : (r.report (.discard r.transmitter.pending.length discardReason)).failures =
          r.failures ++ [.discard r.transmitter.pending.length discardReason] := rfl
      exact reports_other (k := .discard) hl (by simp [Failure.kind]) nofun
  unfold Excess
  rw [hr]
  show r.discardRest.transmitter.disconnect.retired.length = _ ∨
    r.discardRest.transmitter.disconnect.retired.length = _
  rw [transmitter_discardRest, Transmitter.disconnect, List.length_append, h]
  cases r.transmitter.connection with
  | none => exact .inl rfl
  | some s => exact .inr rfl

theorem refuseFull (h : r.Excess n) (e : Event) : (r.refuseFull e).Excess n :=
  h.same (reports_append (refuses_refuseFull r e).failures .write) rfl

theorem refuseClosed (h : r.Excess n) (e : Event) : (r.refuseClosed e).Excess n :=
  h.same (reports_append (refuses_refuseClosed r e).failures .write) rfl

/-- Without a worker no connection is given up. -/
theorem gone {offered accepted encoded : List Event} (h : r.Excess n)
    (c : Change r offered accepted encoded r') (hg : r.isServing = false) :
    r'.Excess n ∧ r'.stage = r.stage := by
  have busy (hs : r.isServing = true) : False := absurd (hg.symm.trans hs) Bool.false_ne_true
  have idle (hs : r.stage = .idle) : False := busy (isServing_idle hs)
  cases c with
  | accept e serving => exact (busy serving).elim
  | take e queue hi => exact (idle hi).elim
  | handle e holding => exact (busy (isServing_holding holding)).elim
  | schedule hi => exact (idle hi).elim
  | flush hi => exact (idle hi).elim
  | windUp hi => exact (idle hi).elim
  | refuseFull e => exact ⟨h.refuseFull e, rfl⟩
  | refuseClosed e => exact ⟨h.refuseClosed e, rfl⟩
  | stay => exact ⟨h, rfl⟩
  | close => exact ⟨h, rfl⟩
  | wait => exact ⟨h, rfl⟩

theorem balance (h : r.Excess n) (hc : r.Counted)
    (he : r.transmitter.counters.established = UInt64.ofNat r.transmitter.connections.length) :
    r.transmitter.counters.established = r.transmitter.counters.writeFailed +
      (if r.transmitter.connection.isSome then 1 else 0) + UInt64.ofNat n := by
  rw [he, hc.writeFailed]
  cases ho : r.transmitter.connection with
  | none =>
      rw [Transmitter.connections_retired ho, h, UInt64.ofNat_add]
      exact congrArg (· + _) (UInt64.add_zero _).symm
  | some s =>
      rw [Transmitter.connections_connected ho, List.length_append, h, List.length_singleton,
        Nat.add_right_comm, UInt64.ofNat_add, UInt64.ofNat_add]
      rfl

end Excess

end Relay

namespace Threads

/-- The move takes the worker down, and it has a connection. -/
def Severs : Threads × Move → Prop
  | (t, .handle) => ∃ e, t.relay.stage = .holding e ∧ t.relay.Topples e
  | (t, .tick) =>
      (t.relay.transmitter.pending ≠ [] ∧ t.relay.ensureConnected.NoDeadline) ∨
        (t.relay.flushed.transmitter.connection ≠ none ∧ t.relay.flushed.NoNextFlush)
  | (t, .finish) => t.relay.transmitter.pending ≠ [] ∧ t.relay.ensureConnected.NoDeadline
  | _ => False

/-- What a move makes of a relay whose connections were all given up by failed flushes. -/
def Accounts (x : Threads × Move) (r : Relay) : Prop :=
  ¬ Severs x ∧ (r.Excess 0 ∨ r.stage = .ended ∧ r.Excess 1) ∨
    Severs x ∧ r.stage = .crashed ∧ r.Excess 1

theorem accounts_handle {t : Threads} {r : Relay} (h : t.relay.handle? = some r)
    (he : t.relay.Excess 0) : Accounts (t, .handle) r := by
  obtain ⟨e, hs⟩ := Relay.holding_of_handle h
  have hc := Relay.handle_crashed_iff hs h
  have hx : Severs (t, .handle) ↔ t.relay.Topples e := Relay.exists_holding hs
  rw [Relay.handle?_holding hs] at h
  cases h
  have hi : Relay.Excess 0 { t.relay with stage := .idle } := he
  obtain ⟨s, hn⟩ := Relay.ensureConnected_connected { t.relay with stage := .idle }
  unfold Accounts
  rw [hx, ← hc]
  rcases hi.ensureConnected.conclude (Relay.stage_ensureConnected _) hn
      (Transmitter.counts_write _ _ _) with ⟨hs, hk⟩ | ⟨hs, hk⟩
  · exact .inl ⟨fun hc => (nomatch hs.symm.trans hc), .inl hk⟩
  · exact .inr ⟨hs, hs, hk⟩

theorem accounts_tick {t : Threads} (hs : t.relay.stage = .idle) (he : t.relay.Excess 0) :
    Accounts (t, .tick) t.relay.flushDue := by
  have hf := Relay.flushed_crashed_iff hs
  rw [Relay.flushDue_eq]
  rcases he.flushed hs with ⟨hi, hk⟩ | ⟨hi, hk⟩
  · have hv : t.relay.flushed.isServing = true := Relay.isServing_idle hi
    have hn : ¬ (t.relay.transmitter.pending ≠ [] ∧ t.relay.ensureConnected.NoDeadline) :=
      fun hx => nomatch hi.symm.trans (hf.2 hx)
    have hc := Relay.schedule_crashed_iff hi
    rw [if_pos hv]
    -- The flush went well enough. The next one cannot be scheduled, or all is in order.
    rcases hk.schedule with ⟨hs', hk'⟩ | ⟨hs', hk'⟩
    · refine .inl ⟨fun hx => ?_, .inl hk'⟩
      rcases hx with hx | hx
      · exact hn hx
      · exact nomatch (hs'.trans hi).symm.trans (hc.2 hx.2)
    · cases ho : t.relay.flushed.transmitter.connection with
      | none =>
          rw [ho] at hk'
          refine .inl ⟨fun hx => ?_, .inl hk'⟩
          rcases hx with hx | hx
          · exact hn hx
          · exact hx.1 ho
      | some s =>
          rw [ho] at hk'
          refine .inr ⟨.inr ⟨?_, hc.1 hs'⟩, hs', hk'⟩
          rw [ho]
          exact Option.some_ne_none s
  · have hv : t.relay.flushed.isServing ≠ true := Bool.eq_false_iff.1 (Relay.isServing_crashed hi)
    rw [if_neg hv]
    exact .inr ⟨.inl (hf.1 hi), hi, hk⟩

theorem accounts_finish {t : Threads} (hs : t.relay.stage = .idle) (he : t.relay.Excess 0) :
    Accounts (t, .finish) t.relay.windUp := by
  have hf := Relay.finalFlush_crashed_iff hs
  rcases Relay.windUp_cases hs with ⟨hc, hw⟩ | ⟨hi, hw⟩
  · rw [hw]
    rcases he.finalFlush hs with ⟨hi, -⟩ | ⟨-, hk⟩
    · exact nomatch hi.symm.trans hc
    · exact .inr ⟨hf.1 hc, hc, hk⟩
  · rw [hw]
    refine .inl ⟨fun hx => (nomatch hi.symm.trans (hf.2 hx)), ?_⟩
    rcases he.finalFlush hs with ⟨-, hk⟩ | ⟨hc, -⟩
    · rcases hk.retire with hk | hk
      · exact .inl hk
      · exact .inr ⟨rfl, hk⟩
    · exact nomatch hi.symm.trans hc

theorem step_accounts {t t' : Threads} {m : Move} (h : t.step m = some t')
    (hn : m = .begin → t.relay.transmitter.connection = none) (he : t.relay.Excess 0) :
    Accounts (t, m) t'.relay := by
  cases step_cases h with
  | handle relay handled => exact accounts_handle handled he
  | tick phase idle => exact accounts_tick idle he
  | finish phase idle => exact accounts_finish (Relay.isIdle_eq idle).1 he
  | begin phase idle =>
      refine .inl ⟨id, .inl ?_⟩
      rcases he.schedule with ⟨-, hk⟩ | ⟨-, hk⟩
      · exact hk
      · rw [hn rfl] at hk
        exact hk
  | send i e holds point =>
      refine .inl ⟨id, .inl ?_⟩
      rcases t.relay_send i e holds with hr | hr | hr
      · rw [hr]
        exact he
      · rw [hr]
        exact he.refuseFull e
      · rw [hr]
        exact he.refuseClosed e
  | claim i holds point =>
      rw [relay_claim]
      exact .inl ⟨id, .inl he⟩
  | take relay phase taken =>
      obtain ⟨e, queue, -, -, rfl⟩ := Relay.take?_eq_some taken
      exact .inl ⟨id, .inl he⟩
  | load => exact .inl ⟨id, .inl he⟩
  | close => exact .inl ⟨id, .inl he⟩
  | joined => exact .inl ⟨id, .inl he⟩
  | leave => exact .inl ⟨id, .inl he⟩
  | expire => exact .inl ⟨id, .inl he⟩
  | wait => exact .inl ⟨id, .inl he⟩

/-- A worker that is gone cannot be taken down. -/
theorem severs_serving {t t' : Threads} {m : Move} (h : t.step m = some t') (hx : Severs (t, m)) :
    t.relay.isServing = true := by
  cases step_cases h with
  | handle relay handled =>
      obtain ⟨e, hs⟩ := Relay.holding_of_handle handled
      exact Relay.isServing_holding hs
  | tick phase idle => exact Relay.isServing_idle idle
  | finish phase idle => exact Relay.isServing_idle (Relay.isIdle_eq idle).1
  | begin => exact hx.elim
  | send => exact hx.elim
  | claim => exact hx.elim
  | take => exact hx.elim
  | load => exact hx.elim
  | close => exact hx.elim
  | joined => exact hx.elim
  | leave => exact hx.elim
  | expire => exact hx.elim
  | wait => exact hx.elim

/-! ## Before the worker's first work -/

/-- The worker has dialed nothing and gathered nothing. -/
def Fresh (t : Threads) : Prop := t.relay.dials = 0 ∧ t.relay.transmitter.pending = []

theorem Fresh.kept {t t' : Threads} {m : Move} (hf : t.Fresh) (h : t.step m = some t')
    (hm : m ≠ .handle) (hn : m ≠ .tick) : t'.Fresh := by
  obtain ⟨hd, hp⟩ := hf
  cases step_cases h with
  | handle => exact absurd rfl hm
  | tick => exact absurd rfl hn
  | begin phase idle =>
      refine ⟨(Relay.dials_schedule _).trans hd, ?_⟩
      show t.relay.schedule.transmitter.pending = []
      unfold Relay.schedule
      dsimp only
      split
      · exact hp
      · exact hp
  | finish phase idle =>
      -- With nothing gathered the last flush is none.
      have hi := (Relay.isIdle_eq idle).1
      have hw : t.relay.windUp = t.relay.retire := by
        have hf : t.relay.finalFlush = t.relay := by
          rw [Relay.finalFlush, hp]
          rfl
        rcases Relay.windUp_cases hi with ⟨hc, -⟩ | ⟨-, hw⟩
        · rw [hf] at hc
          exact nomatch hi.symm.trans hc
        · rw [hw, hf]
      refine ⟨?_, ?_⟩
      · rw [hw, Relay.dials_retire]
        exact hd
      · rw [hw]
        show t.relay.discardRest.transmitter.pending = []
        rw [Relay.transmitter_discardRest]
        exact hp
  | send i e holds point =>
      unfold Fresh
      rcases t.relay_send i e holds with hr | hr | hr
      · rw [hr]
        exact ⟨hd, hp⟩
      · rw [hr]
        exact ⟨hd, hp⟩
      · rw [hr]
        exact ⟨hd, hp⟩
  | claim i holds point =>
      unfold Fresh
      rw [relay_claim]
      exact ⟨hd, hp⟩
  | take relay phase taken =>
      obtain ⟨e, queue, -, -, rfl⟩ := Relay.take?_eq_some taken
      exact ⟨hd, hp⟩
  | load => exact ⟨hd, hp⟩
  | close => exact ⟨hd, hp⟩
  | joined => exact ⟨hd, hp⟩
  | leave => exact ⟨hd, hp⟩
  | expire => exact ⟨hd, hp⟩
  | wait => exact ⟨hd, hp⟩

/-- Until it has chosen its first moment for a flush the worker does nothing. -/
theorem step_starting {t t' : Threads} {m : Move} (h : t.step m = some t')
    (hp : t'.phase = .starting) : t.phase = .starting ∧
      (t.relay.stage = .idle → t'.relay.stage = .idle ∧ m ≠ .handle ∧ m ≠ .tick) := by
  cases step_cases h with
  | begin => exact nomatch hp
  | tick => exact nomatch hp
  | expire => exact nomatch hp
  | take relay phase => exact nomatch phase.symm.trans hp
  | finish phase => exact nomatch phase.symm.trans hp
  | handle relay handled =>
      obtain ⟨e, hs⟩ := Relay.holding_of_handle handled
      exact ⟨hp, fun hi => (nomatch hi.symm.trans hs)⟩
  | send i e holds point =>
      rw [phase_send] at hp
      exact ⟨hp, fun hi => ⟨(stage_send t i e holds).trans hi, nofun, nofun⟩⟩
  | claim i holds point =>
      rw [phase_claim] at hp
      rw [relay_claim]
      exact ⟨hp, fun hi => ⟨hi, nofun, nofun⟩⟩
  | load => exact ⟨hp, fun hi => ⟨hi, nofun, nofun⟩⟩
  | close => exact ⟨hp, fun hi => ⟨hi, nofun, nofun⟩⟩
  | joined => exact ⟨hp, fun hi => ⟨hi, nofun, nofun⟩⟩
  | leave => exact ⟨hp, fun hi => ⟨hi, nofun, nofun⟩⟩
  | wait => exact ⟨hp, fun hi => ⟨hi, nofun, nofun⟩⟩

/-! ## Whole runs -/

variable {s : Settings} {reactions : List Reaction} {answers : List DialAnswer} {clock : Clock}
  {count : Nat} {past : List (Threads × Move)} {t : Threads}

theorem run_tally
    (h : Run step (start (.unscheduled s.withDefaults reactions answers clock) count) past t) :
    t.relay.Tally (past.flatMap offered) (past.flatMap accepted) :=
  run_invariant (P := fun offered accepted _ r => Relay.Tally offered accepted r)
    ⟨rfl, rfl, rfl, rfl⟩ (fun h c => h.change c) h

theorem run_shipped
    (h : Run step (start (.unscheduled s.withDefaults reactions answers clock) count) past t) :
    t.relay.Shipped (past.flatMap encoded) :=
  run_invariant (P := fun _ _ encoded r => Relay.Shipped encoded r)
    (Relay.shipped_unscheduled s.withDefaults reactions answers clock) (fun h c => h.change c) h

theorem run_counted
    (h : Run step (start (.unscheduled s.withDefaults reactions answers clock) count) past t) :
    t.relay.Counted :=
  run_invariant (P := fun _ _ _ r => Relay.Counted r) ⟨⟨rfl, rfl⟩, rfl, rfl⟩
    (fun h c => h.change c) h

theorem run_fresh
    (h : Run step (start (.unscheduled s.withDefaults reactions answers clock) count) past t)
    (hm : ∀ x ∈ past, x.2 ≠ .handle ∧ x.2 ≠ .tick) : t.Fresh := by
  induction h with
  | start => exact ⟨rfl, rfl⟩
  | @next past u v m before enabled ih =>
      rw [List.forall_mem_append, List.forall_mem_singleton] at hm
      exact (ih hm.1).kept enabled hm.2.1 hm.2.2

theorem run_starting
    (h : Run step (start (.unscheduled s.withDefaults reactions answers clock) count) past t)
    (hp : t.phase = .starting) :
    t.relay.stage = .idle ∧ ∀ x ∈ past, x.2 ≠ .handle ∧ x.2 ≠ .tick := by
  induction h with
  | start => exact ⟨rfl, fun x hx => absurd hx List.not_mem_nil⟩
  | @next past u v m before enabled ih =>
      obtain ⟨hu, hk⟩ := step_starting enabled hp
      obtain ⟨hi, hm⟩ := ih hu
      obtain ⟨hv, hn⟩ := hk hi
      refine ⟨hv, ?_⟩
      rw [List.forall_mem_append, List.forall_mem_singleton]
      exact ⟨hm, hn⟩

/-- The worker starts without a connection. -/
theorem begin_unconnected
    (h : Run step (start (.unscheduled s.withDefaults reactions answers clock) count) past t)
    {t' : Threads} (hb : t.step .begin = some t') : t.relay.transmitter.connection = none := by
  cases step_cases hb with
  | begin phase idle =>
      have hd := (run_fresh h (run_starting h phase).2).1
      rw [(run_counted h).toll.2] at hd
      cases hc : t.relay.transmitter.connection with
      | none => rfl
      | some s =>
          rw [Transmitter.connections_connected hc, List.length_append] at hd
          exact nomatch (Nat.add_eq_zero_iff.1 (Nat.add_eq_zero_iff.1 hd).1).2

/-- Every connection that was given up had its failed flush, except for one that the worker's end
closed or that was lost with the worker. -/
theorem run_excess
    (h : Run step (start (.unscheduled s.withDefaults reactions answers clock) count) past t) :
    (∀ x ∈ past, ¬ Severs x) ∧
        (t.relay.Excess 0 ∨ t.relay.stage = .ended ∧ t.relay.Excess 1) ∨
      (∃ x ∈ past, Severs x) ∧ t.relay.stage = .crashed ∧ t.relay.Excess 1 := by
  induction h with
  | start => exact .inl ⟨fun x hx => absurd hx List.not_mem_nil, .inl rfl⟩
  | @next past u v m before enabled ih =>
      have c := step_change enabled
      rw [List.forall_mem_append, List.forall_mem_singleton]
      rcases ih with ⟨hx, he | ⟨hs, he⟩⟩ | ⟨⟨x, hx, hy⟩, hs, he⟩
      · rcases step_accounts enabled (fun hb => begin_unconnected before (hb ▸ enabled)) he with
          ⟨hn, hk⟩ | ⟨hn, hk⟩
        · exact .inl ⟨⟨hx, hn⟩, hk⟩
        · exact .inr ⟨⟨_, List.mem_append_right _ (List.mem_singleton_self _), hn⟩, hk⟩
      · have hg := Relay.isServing_ended hs
        obtain ⟨hk, hv⟩ := he.gone c hg
        refine .inl ⟨⟨hx, fun hn => ?_⟩, .inr ⟨hv.trans hs, hk⟩⟩
        exact absurd (hg.symm.trans (severs_serving enabled hn)) Bool.false_ne_true
      · obtain ⟨hk, hv⟩ := he.gone c (Relay.isServing_crashed hs)
        exact .inr ⟨⟨x, List.mem_append_left _ hx, hy⟩, hv.trans hs, hk⟩

theorem run_unhandled
    (h : Run step (start (.unscheduled s.withDefaults reactions answers clock) count) past t)
    (he : past.flatMap encoded = []) : ∀ x ∈ past, x.2 ≠ .handle := by
  induction h with
  | start => exact fun x hx => absurd hx List.not_mem_nil
  | @next past u v m before enabled ih =>
      rw [List.flatMap_append, List.flatMap_singleton, List.append_eq_nil_iff] at he
      rw [List.forall_mem_append, List.forall_mem_singleton]
      refine ⟨ih he.1, fun hm => ?_⟩
      have hm : m = .handle := hm
      subst hm
      cases step_cases enabled with
      | handle relay handled =>
          obtain ⟨e, hs⟩ := Relay.holding_of_handle handled
          have hi : u.relay.inHand = [] := he.2
          rw [Relay.inHand_holding hs] at hi
          exact nomatch hi

/-- Whatever the order in which threads submit events to a relay and close it, whatever the dial
calls and the connections do, and wherever the callback panics: the counts of failures are those of
the reports; every dial call is counted as a connection or as a failure; and until the worker ends,
the connections made are those that a failed flush gave up and the one in use, exactly as long as no
move took the worker down while it had a connection. The worker dials only without a connection, it
has one at a time, it gives one up only by a failed flush, and it dials nothing before it has an
event or a flush is due. -/
theorem counts_agree
    (h : Run step (start (.unscheduled s.withDefaults reactions answers clock) count) past t) :
    (t.relay.transmitter.counters.dialFailed = UInt64.ofNat (t.relay.reports .dial) ∧
      t.relay.transmitter.counters.writeFailed = UInt64.ofNat (t.relay.reports .write) ∧
      t.relay.transmitter.counters.encodeFailed = UInt64.ofNat (t.relay.reports .encode) ∧
      t.relay.transmitter.counters.queueFull = UInt64.ofNat (t.relay.reports .queueFull) ∧
      t.relay.transmitter.counters.queueClosed = UInt64.ofNat (t.relay.reports .queueClosed)) ∧
    UInt64.ofNat t.relay.dials =
      t.relay.transmitter.counters.established + t.relay.transmitter.counters.dialFailed ∧
    (t.relay.stage ≠ .ended →
      (t.relay.transmitter.counters.established = t.relay.transmitter.counters.writeFailed +
          (if t.relay.transmitter.connection.isSome then 1 else 0) ↔
        ∀ x ∈ past, ¬ Severs x)) ∧
    (t.relay.isServing = true → (∀ x ∈ past, ¬ Severs x) ∧
      t.relay.transmitter.retired.length = t.relay.reports .write) ∧
    (∀ m t', t.step m = some t' → t'.relay.dials ≠ t.relay.dials →
      t.relay.transmitter.connection = none) ∧
    (∀ c, t.relay.transmitter.connection = some c → c.Sound) ∧
    (∀ c ∈ t.relay.transmitter.retired, c.GivenUp) ∧
    (past.flatMap accepted = [] → (∀ x ∈ past, x.2 ≠ .tick) → t.relay.dials = 0) := by
  have hc := run_counted h
  have ht := run_tally h
  obtain ⟨rest, hl⟩ := run_shipped h
  have hx := run_excess h
  refine ⟨⟨hc.toll.1, hc.writeFailed, hc.encodeFailed, ht.queueFull, ht.queueClosed⟩, ?_,
    fun hs => ?_, fun hv => ?_, fun m t' hm hd => ?_, hl.sound, hl.givenUp, fun ha hn => ?_⟩
  · rw [hc.toll.2, UInt64.ofNat_add, hl.established, hc.toll.1]
  · rcases hx with ⟨hx, he | ⟨hs', -⟩⟩ | ⟨⟨x, hx, hy⟩, -, he⟩
    · have hb := he.balance hc hl.established
      exact ⟨fun _ => hx, fun _ => hb.trans (UInt64.add_zero _)⟩
    · exact absurd hs' hs
    · have hb := he.balance hc hl.established
      refine ⟨fun hk => ?_, fun hn => absurd hy (hn x hx)⟩
      rw [hk, UInt64.left_eq_add] at hb
      exact absurd hb (by decide)
  · rcases hx with ⟨hx, he | ⟨hs, -⟩⟩ | ⟨-, hs, -⟩
    · exact ⟨hx, he⟩
    · exact absurd ((Relay.isServing_ended hs).symm.trans hv) Bool.false_ne_true
    · exact absurd ((Relay.isServing_crashed hs).symm.trans hv) Bool.false_ne_true
  · cases ho : t.relay.transmitter.connection with
    | none => rfl
    | some c => exact absurd ((step_change hm).dials ho) hd
  · have he : past.flatMap encoded = [] := List.prefix_nil.1 (ha ▸ (run_order h).served)
    exact (run_fresh h fun x hx => ⟨run_unhandled h he x hx, hn x hx⟩).1

/-- An event that `fussy` refuses to encode. -/
def nameless : Event := ⟨⟨"", "", .empty⟩, .set .zero⟩

/-- A flush for every event that has a name, and room for one event. -/
def fussy : Settings :=
  { Settings.ofTarget
      (fun e => if e.metric.name = "" then .failed [] (.bare .invalidInput) else .done [1, 2])
      "udp" "localhost" with
    bufferSize := 1
    queueSize := 1 }

/-- Each kind of failure once: the first dial call is refused, the first connection fails, and the
callback panics the first time. -/
def mishaps : Option (List (Threads × Move) × Threads) :=
  Run.follow step
    (start (.unscheduled fussy.withDefaults [⟨false, some .wordless⟩]
      [.refuse (.bare .connectionRefused), .accept Relay.brittle] ⟨0, []⟩) 2)
    [.begin, .load 0 Relay.sample, .send 0, .leave 0, .take, .load 0 nameless, .send 0, .leave 0,
      .load 0 Relay.sample, .send 0, .leave 0, .handle, .take, .handle, .close 1,
      .load 0 Relay.sample, .send 0]

theorem counts_agree_mishaps : ∃ past t,
    Run step (start (.unscheduled fussy.withDefaults [⟨false, some .wordless⟩]
      [.refuse (.bare .connectionRefused), .accept Relay.brittle] ⟨0, []⟩) 2) past t ∧
    t.relay.isServing = true ∧ t.relay.reports .dial = 1 ∧ t.relay.reports .write = 1 ∧
    t.relay.reports .encode = 1 ∧ t.relay.reports .queueFull = 1 ∧
    t.relay.reports .queueClosed = 1 ∧ t.relay.dials = 3 ∧
    t.relay.transmitter.connection.isSome = true ∧ t.relay.transmitter.retired.length = 1 ∧
    UInt64.ofNat 3 =
      t.relay.transmitter.counters.established + t.relay.transmitter.counters.dialFailed := by
  have hsome : mishaps.isSome = true := by decide +kernel
  have hserving : mishaps.map (fun run => run.2.relay.isServing) = some true := by decide +kernel
  have hreports : mishaps.map (fun run => (run.2.relay.reports .dial,
      run.2.relay.reports .write, run.2.relay.reports .encode, run.2.relay.reports .queueFull,
      run.2.relay.reports .queueClosed)) = some (1, 1, 1, 1, 1) := by decide +kernel
  have hdials : mishaps.map (fun run => (run.2.relay.dials,
      run.2.relay.transmitter.connection.isSome)) = some (3, true) := by decide +kernel
  obtain ⟨⟨past, t⟩, hr⟩ := Option.isSome_iff_exists.1 hsome
  rw [hr] at hserving hreports hdials
  have h := Run.of_follow hr
  have hv : t.relay.isServing = true := Option.some.inj hserving
  have hk := Option.some.inj hreports
  have hw : t.relay.reports .write = 1 := congrArg (·.2.1) hk
  have hd : t.relay.dials = 3 := congrArg (·.1) (Option.some.inj hdials)
  obtain ⟨-, hcalls, -, hgiven, -⟩ := counts_agree h
  exact ⟨past, t, h, hv, congrArg (·.1) hk, hw, congrArg (·.2.2.1) hk, congrArg (·.2.2.2.1) hk,
    congrArg (·.2.2.2.2) hk, hd, congrArg (·.2) (Option.some.inj hdials),
    (hgiven hv).2.trans hw, hd ▸ hcalls⟩

theorem counts_disagree_unreachable_deadline : ∃ past t,
    Run step (start (.unscheduled boundless.withDefaults [] [] ⟨0, []⟩) 2) past t ∧
    (∀ e, boundless.codec e ≠ .crashed) ∧ t.relay.stage ≠ .ended ∧
    t.relay.transmitter.counters.established ≠ t.relay.transmitter.counters.writeFailed +
      (if t.relay.transmitter.connection.isSome then 1 else 0) := by
  have hsome : downfall.isSome = true := by decide +kernel
  have hend : downfall.map (fun run => run.2.relay.hasEnded) = some false := by decide +kernel
  have hcounts : downfall.map (fun run => (run.2.relay.transmitter.counters.established,
      run.2.relay.transmitter.counters.writeFailed,
      run.2.relay.transmitter.connection.isSome)) = some (1, 0, false) := by decide +kernel
  obtain ⟨⟨past, t⟩, hr⟩ := Option.isSome_iff_exists.1 hsome
  rw [hr] at hend hcounts
  have hs : t.relay.hasEnded = false := Option.some.inj hend
  have hc := Option.some.inj hcounts
  have he : t.relay.transmitter.counters.established = 1 := congrArg (·.1) hc
  have hw : t.relay.transmitter.counters.writeFailed = 0 := congrArg (·.2.1) hc
  have ho : t.relay.transmitter.connection.isSome = false := congrArg (·.2.2) hc
  refine ⟨past, t, Run.of_follow hr, fun _ => nofun, fun hn => ?_, ?_⟩
  · rw [Relay.hasEnded, hn] at hs
    exact nomatch hs
  · rw [he, hw, ho]
    decide

end Threads
end Telemetry
