import Mathlib.Algebra.GroupWithZero.Nat
import Telemetry.Proofs.Relay.Delivery
/-!
Cycles of dialing and their pauses.

A cycle is one round for each refused call, made of the call, its report and a pause, and then the
call that gives the connection. The pauses of a cycle depend on nothing but the shortest and the
longest one: no cycle leaves anything behind that a later one could tell, and `redialing` says so
for whole runs.
-/

namespace Telemetry

namespace Backoff

/-- The nanoseconds of the pause with so many pauses before it in its cycle. -/
def pause (b : Backoff) (i : Nat) : Nat :=
  if i = 0 then b.next.nanos else min (2 ^ i * b.next.nanos) b.max.nanos

/-- Doubling stops at the longest span there is, which no maximum exceeds. -/
theorem nanos_advance (b : Backoff) :
    b.advance.next.nanos = min (2 * b.next.nanos) b.max.nanos := by
  have hmax := b.max.nanos_lt
  show (Duration.shorter (Duration.saturatingAdd b.next b.next) b.max).nanos = _
  rw [Duration.nanos_shorter, Duration.nanos_saturatingAdd]
  omega

theorem pause_succ (b : Backoff) (i : Nat) :
    b.pause (i + 1) = min (2 ^ (i + 1) * b.next.nanos) b.max.nanos :=
  if_neg (Nat.succ_ne_zero i)

theorem pause_advance (b : Backoff) (i : Nat) : b.advance.pause i = b.pause (i + 1) := by
  rw [pause_succ]
  cases i with
  | zero =>
      show b.advance.next.nanos = _
      rw [nanos_advance, Nat.zero_add, Nat.pow_one]
  | succ i =>
      -- Capping before doubling makes no difference: twice the cap is not below the cap.
      have hcap : b.max.nanos ≤ 2 ^ (i + 1) * b.max.nanos :=
        Nat.le_mul_of_pos_left _ (Nat.two_pow_pos _)
      have hpow : 2 ^ (i + 1) * (2 * b.next.nanos) = 2 ^ (i + 1 + 1) * b.next.nanos := by
        rw [Nat.pow_succ 2 (i + 1), Nat.mul_assoc]
      rw [pause_succ, nanos_advance]
      show min _ b.max.nanos = _
      rw [← Nat.mul_min_mul_left, hpow]
      omega

theorem length_delays (b : Backoff) (n : Nat) : (b.delays n).length = n := by
  induction n generalizing b with
  | zero => rfl
  | succ n ih => rw [delays, List.length_cons, ih]

/-- The pauses of a cycle in closed form. -/
theorem nanos_delays (b : Backoff) (n : Nat) :
    (b.delays n).map Duration.nanos = (List.range n).map b.pause := by
  induction n generalizing b with
  | zero => rfl
  | succ n ih =>
      have hlater : b.advance.pause = b.pause ∘ Nat.succ := funext b.pause_advance
      rw [delays, List.map_cons, ih, hlater, List.range_succ_eq_map, List.map_cons, List.map_map]
      rfl

theorem pause_le_max (b : Backoff) {i : Nat} (h : 0 < i) : b.pause i ≤ b.max.nanos := by
  obtain ⟨j, rfl⟩ := Nat.exists_eq_add_one.2 h
  rw [pause_succ]
  exact Nat.min_le_right _ _

theorem pause_mono (b : Backoff) {i j : Nat} (h : 0 < i) (hij : i ≤ j) : b.pause i ≤ b.pause j := by
  obtain ⟨i, rfl⟩ := Nat.exists_eq_add_one.2 h
  obtain ⟨j, rfl⟩ := Nat.exists_eq_add_one.2 (Nat.lt_of_lt_of_le h hij)
  have hpow : 2 ^ (i + 1) * b.next.nanos ≤ 2 ^ (j + 1) * b.next.nanos :=
    Nat.mul_le_mul_right _ (Nat.pow_le_pow_right (by decide) hij)
  rw [pause_succ, pause_succ]
  omega

theorem tail_delays (b : Backoff) (n : Nat) :
    (b.delays n).tail.map Duration.nanos = (List.range' 1 (n - 1)).map b.pause := by
  rw [List.map_tail, nanos_delays, ← List.map_tail, List.range_eq_range', List.tail_range']

/-- Behind the first one, pauses never get shorter and never exceed the longest one. -/
theorem rising_delays (b : Backoff) (n : Nat) :
    ((b.delays n).tail.map Duration.nanos).Pairwise (· ≤ ·) ∧
      ∀ d ∈ (b.delays n).tail, d.nanos ≤ b.max.nanos := by
  have hp : ∀ i ∈ List.range' 1 (n - 1), 0 < i := fun i hi => (List.mem_range'_1.1 hi).1
  refine ⟨?_, fun d hd => ?_⟩
  · rw [tail_delays, List.pairwise_map]
    refine List.Pairwise.imp_of_mem ?_ List.pairwise_lt_range'
    intro i j hi _ hij
    exact b.pause_mono (hp i hi) (Nat.le_of_lt hij)
  · have hm := List.mem_map_of_mem (f := Duration.nanos) hd
    rw [tail_delays] at hm
    obtain ⟨i, hi, he⟩ := List.mem_map.1 hm
    rw [← he]
    exact b.pause_le_max (hp i hi)

end Backoff

/-! ## One cycle -/

/-- What is done for refused calls and the pauses behind them. -/
def DialStep.rounds (causes : List IoError) (spans : List Duration) : List DialStep :=
  (causes.zip spans).flatMap fun x => [.dial, .refused x.1, .pause x.2]

namespace DialAnswer

/-- The connection that the next dial call gives, and the answers behind it. -/
def granted? : List DialAnswer → Option (Sink × List DialAnswer)
  | [] => some (.ideal, [])
  | .accept connection :: answers => some (connection.opened, answers)
  | .refuse _ :: _ => none

/-- The refusals before the first connection. -/
def refusals : List DialAnswer → List IoError
  | .refuse cause :: answers => cause :: refusals answers
  | _ => []

/-- Every script of answers is some refusals and then a connection. -/
theorem split_refusals (answers : List DialAnswer) :
    ∃ later s rest, answers = (refusals answers).map .refuse ++ later ∧
      granted? later = some (s, rest) := by
  induction answers with
  | nil => exact ⟨[], .ideal, [], rfl, rfl⟩
  | cons answer answers ih =>
      cases answer with
      | accept s => exact ⟨.accept s :: answers, s.opened, answers, rfl, rfl⟩
      | refuse cause =>
          obtain ⟨later, s, rest, ha, hg⟩ := ih
          exact ⟨later, s, rest, congrArg (.refuse cause :: ·) ha, hg⟩

end DialAnswer

theorem Backoff.connect_eq (b : Backoff) (causes : List IoError) {later rest : List DialAnswer}
    {s : Sink} (h : DialAnswer.granted? later = some (s, rest)) :
    b.connect (causes.map .refuse ++ later) =
      ⟨DialStep.rounds causes (b.delays causes.length) ++ [.dial, .established], s, rest⟩ := by
  induction causes generalizing b with
  | nil =>
      cases later with
      | nil =>
          cases h
          rfl
      | cons answer later =>
          cases answer with
          | accept s' =>
              cases h
              rfl
          | refuse cause => exact nomatch h
  | cons cause causes ih =>
      have hs : b.connect (.refuse cause :: (causes.map .refuse ++ later)) =
          let rest := b.advance.connect (causes.map .refuse ++ later)
          ⟨.dial :: .refused cause :: .pause b.next :: rest.steps, rest.connection,
            rest.answers⟩ := rfl
      rw [List.map_cons, List.cons_append, hs, ih]
      rfl

namespace Relay

/-- What some refused calls change, each reported before the pause behind it. -/
structure Retries (r : Relay) (causes : List IoError) (spans : List Duration) (r' : Relay) :
    Prop where
  dials : r'.dials = r.dials + causes.length
  reports : r'.failures = r.failures ++ causes.map (.dial r.network r.address)
  counters : r'.transmitter.counters =
    { r.transmitter.counters with
      dialFailed := r.transmitter.counters.dialFailed + UInt64.ofNat causes.length }
  pauses : r'.pauses = r.pauses ++ spans
  clock : r'.clock = r.clock.pass (spans.map Duration.nanos).sum

theorem retries_rounds (r : Relay) {causes : List IoError} {spans : List Duration}
    (h : causes.length = spans.length) :
    r.Retries causes spans ((DialStep.rounds causes spans).foldl dialStep r) := by
  induction causes generalizing r spans with
  | nil =>
      obtain rfl := List.length_eq_zero_iff.1 h.symm
      refine ⟨rfl, (List.append_nil _).symm, ?_, (List.append_nil _).symm, rfl⟩
      show r.transmitter.counters = { r.transmitter.counters with
        dialFailed := r.transmitter.counters.dialFailed + 0 }
      rw [UInt64.add_zero]
  | cons cause causes ih =>
      cases spans with
      | nil => exact nomatch h
      | cons span spans =>
          have hk := ih (r.refused cause span) (Nat.succ.inj h)
          have hs : (DialStep.rounds (cause :: causes) (span :: spans)).foldl dialStep r =
              (DialStep.rounds causes spans).foldl dialStep (r.refused cause span) := by
            rw [← dialStep_refused]
            rfl
          have hf : (r.refused cause span).failures =
              r.failures ++ [.dial r.network r.address cause] := rfl
          rw [hs]
          refine ⟨?_, ?_, ?_, ?_, ?_⟩
          · rw [hk.dials, List.length_cons]
            show r.dials + 1 + causes.length = _
            omega
          · rw [hk.reports, hf, List.append_assoc]
            rfl
          · rw [hk.counters, List.length_cons, Nat.add_comm causes.length 1, UInt64.ofNat_add,
              ← UInt64.add_assoc]
            rfl
          · rw [hk.pauses]
            exact List.append_assoc r.pauses [span] spans
          · rw [hk.clock, List.map_cons, List.sum_cons]
            show Clock.mk (r.clock.now + span.nanos + _) r.clock.lags = _
            rw [Nat.add_assoc]
            rfl

/-- What a cycle with these refusals changes, and the connection that it ends with. -/
structure Redials (r : Relay) (causes : List IoError) (s : Sink) (rest : List DialAnswer)
    (r' : Relay) : Prop where
  dials : r'.dials = r.dials + (causes.length + 1)
  reports : r'.failures = r.failures ++ causes.map (.dial r.network r.address)
  counters : r'.transmitter.counters =
    { r.transmitter.counters with
      dialFailed := r.transmitter.counters.dialFailed + UInt64.ofNat causes.length
      established := r.transmitter.counters.established + 1 }
  pauses : r'.pauses = r.pauses ++ r.backoff.delays causes.length
  clock : r'.clock =
    r.clock.pass ((r.backoff.delays causes.length).map Duration.nanos).sum
  connection : r'.transmitter.connection = some s
  answers : r'.answers = rest
  backoff : r'.backoff = r.backoff

theorem backoff_dialSteps (r : Relay) (steps : List DialStep) :
    (steps.foldl dialStep r).backoff = r.backoff := by
  obtain ⟨_, _, _, _, _, h⟩ := r.exists_dialSteps steps
  rw [h]

theorem redials_connect {r : Relay} {causes : List IoError} {later rest : List DialAnswer} {s : Sink}
    (h : r.answers = causes.map .refuse ++ later)
    (hs : DialAnswer.granted? later = some (s, rest)) : r.Redials causes s rest r.connect := by
  have hr := r.retries_rounds (r.backoff.length_delays causes.length).symm
  have hb := r.backoff_dialSteps (DialStep.rounds causes (r.backoff.delays causes.length))
  have hc : r.connect =
      let q := ((DialStep.rounds causes (r.backoff.delays causes.length)).foldl dialStep r).established
      { q with transmitter := q.transmitter.connect s, answers := rest } := by
    unfold connect
    rw [h, r.backoff.connect_eq causes hs]
    dsimp only
    rw [List.foldl_append, ← dialStep_established]
    rfl
  generalize (DialStep.rounds causes (r.backoff.delays causes.length)).foldl dialStep r = q at hr hb hc
  rw [hc]
  refine ⟨?_, hr.reports, ?_, hr.pauses, hr.clock, rfl, rfl, hb⟩
  · show q.dials + 1 = _
    rw [hr.dials, Nat.add_assoc]
  · show q.transmitter.counters.addEstablished = _
    rw [hr.counters]
    rfl

/-! ## Cycles of a run -/

/-- Cycles of dialing between two states of a relay, each with the number of its refusals. -/
structure Cycles (r : Relay) (refused : List Nat) (r' : Relay) : Prop where
  dials : r'.dials = r.dials + (refused.sum + refused.length)
  pauses : r'.pauses = r.pauses ++ refused.flatMap r.backoff.delays
  backoff : r'.backoff = r.backoff

namespace Cycles

variable {q r r' : Relay} {refused : List Nat}

theorem none (h : r'.dialing = r.dialing) : Cycles r [] r' where
  dials := congrArg (·.1) h
  pauses := (congrArg (·.2.1) h).trans (List.append_nil _).symm
  backoff := congrArg (·.2.2) h

theorem same (h : Cycles q refused r) (hd : r'.dialing = r.dialing) : Cycles q refused r' where
  dials := (congrArg (·.1) hd).trans h.dials
  pauses := (congrArg (·.2.1) hd).trans h.pauses
  backoff := (congrArg (·.2.2) hd).trans h.backoff

theorem trans {later : List Nat} (h : Cycles q refused r) (k : Cycles r later r') :
    Cycles q (refused ++ later) r' where
  dials := by
    rw [k.dials, h.dials, List.sum_append, List.length_append]
    omega
  pauses := by
    rw [k.pauses, h.pauses, h.backoff, List.flatMap_append, List.append_assoc]
  backoff := k.backoff.trans h.backoff

end Cycles

theorem cycles_ensureConnected (r : Relay) : ∃ refused, Cycles r refused r.ensureConnected := by
  unfold ensureConnected
  cases r.transmitter.connection with
  | some s => exact ⟨[], .none rfl⟩
  | none =>
      obtain ⟨later, s, rest, ha, hg⟩ := DialAnswer.split_refusals r.answers
      have hc := redials_connect ha hg
      refine ⟨[(DialAnswer.refusals r.answers).length], ?_, ?_, hc.backoff⟩
      · show r.connect.dials = _
        rw [hc.dials, List.sum_singleton, List.length_singleton]
      · show r.connect.pauses = _
        rw [hc.pauses, List.flatMap_singleton]

theorem cycles_flushed (r : Relay) : ∃ refused, Cycles r refused r.flushed := by
  obtain ⟨refused, h⟩ := r.cycles_ensureConnected
  exact ⟨refused, h.same (dialing_conclude _ _)⟩

theorem cycles_finalFlush (r : Relay) : ∃ refused, Cycles r refused r.finalFlush := by
  unfold finalFlush
  split
  · exact ⟨[], .none rfl⟩
  · exact r.cycles_flushed

theorem Change.cycles {r r' : Relay} {offered accepted encoded : List Event}
    (c : Change r offered accepted encoded r') : ∃ refused, Cycles r refused r' := by
  cases c with
  | handle e holding handled =>
      rw [handle?_holding holding] at handled
      cases handled
      obtain ⟨refused, h⟩ := cycles_ensureConnected { r with stage := .idle }
      have hi : Cycles r [] { r with stage := .idle } := .none rfl
      exact ⟨[] ++ refused, hi.trans (h.same (dialing_conclude _ _))⟩
  | schedule idle => exact ⟨[], .none (dialing_schedule r)⟩
  | flush idle =>
      obtain ⟨refused, h⟩ := r.cycles_flushed
      rw [flushDue_eq]
      split
      · exact ⟨refused, h.same (dialing_schedule _)⟩
      · exact ⟨refused, h⟩
  | windUp idle drained =>
      obtain ⟨refused, h⟩ := r.cycles_finalFlush
      rcases windUp_cases idle with ⟨-, hw⟩ | ⟨-, hw⟩
      · rw [hw]
        exact ⟨refused, h⟩
      · rw [hw]
        exact ⟨refused, h.same (dialing_retire _)⟩
  | stay => exact ⟨[], .none rfl⟩
  | accept => exact ⟨[], .none rfl⟩
  | refuseFull => exact ⟨[], .none rfl⟩
  | refuseClosed => exact ⟨[], .none rfl⟩
  | close => exact ⟨[], .none rfl⟩
  | take => exact ⟨[], .none rfl⟩
  | wait => exact ⟨[], .none rfl⟩

theorem run_cycles {r r' : Relay} {past : List (Relay × Move)} (h : Run step r past r') :
    ∃ refused, Cycles r refused r' :=
  run_invariant (P := fun _ _ _ r' => ∃ refused, Cycles r refused r') ⟨[], .none rfl⟩
    (fun ⟨refused, hk⟩ c => by
      obtain ⟨later, hl⟩ := c.cycles
      exact ⟨refused ++ later, hk.trans hl⟩) h

/-- Whatever a relay has done before, a cycle of dialing makes one call for each refusal and one
more; it counts and reports each refusal before the pause behind it, and counts one connection. Its
pauses are the shortest one and then the doubled ones up to the longest, as exact numbers of
nanoseconds: from the second one on they never get shorter and never exceed the longest. The pauses
of a run are those of its cycles, one after the other, each cycle from its start. -/
theorem redialing {r r' : Relay} {past : List (Relay × Move)} {causes : List IoError}
    {later rest : List DialAnswer} {s : Sink} (h : Run step r past r')
    (ha : r'.answers = causes.map .refuse ++ later)
    (hs : DialAnswer.granted? later = some (s, rest)) :
    (∃ refused, Cycles r refused r') ∧
    (r'.backoff.connect r'.answers).steps =
      DialStep.rounds causes (r.backoff.delays causes.length) ++ [.dial, .established] ∧
    r'.Redials causes s rest r'.connect ∧
    (∀ k, (r.backoff.delays k).map Duration.nanos =
      (List.range k).map fun i =>
        if i = 0 then r.backoff.next.nanos
        else min (2 ^ i * r.backoff.next.nanos) r.backoff.max.nanos) ∧
    (∀ k, ((r.backoff.delays k).tail.map Duration.nanos).Pairwise (· ≤ ·) ∧
      ∀ d ∈ (r.backoff.delays k).tail, d.nanos ≤ r.backoff.max.nanos) := by
  obtain ⟨refused, hc⟩ := run_cycles h
  refine ⟨⟨refused, hc⟩, ?_, redials_connect ha hs, r.backoff.nanos_delays,
    r.backoff.rising_delays⟩
  rw [ha, r'.backoff.connect_eq causes hs, hc.backoff]

/-- A flush for each event, and a shortest pause that is longer than the longest one. -/
def crossed : Settings :=
  { eager with
    retryMin := .ofSeconds 3
    retryMax := .ofSeconds 1 }

/-- A first cycle with one refusal gives a connection that fails. -/
def setback : Option (List (Relay × Move) × Relay) :=
  Run.follow step (ofSettings crossed []
      [.refuse (.bare .connectionRefused), .accept brittle, .refuse (.bare .timedOut),
        .refuse (.bare .connectionRefused)] ⟨0, []⟩)
    [.submit sample, .take, .handle]

/-- The second cycle starts from the first pause again. -/
theorem redialing_setback : ∃ past r,
    Run step (ofSettings crossed []
      [.refuse (.bare .connectionRefused), .accept brittle, .refuse (.bare .timedOut),
        .refuse (.bare .connectionRefused)] ⟨0, []⟩) past r ∧
    DialAnswer.refusals r.answers = [.bare .timedOut, .bare .connectionRefused] ∧
    r.connect.pauses = [.ofSeconds 3, .ofSeconds 3, .ofSeconds 1] := by
  have hsome : setback.isSome = true := by decide +kernel
  have hleft : setback.map (fun run => DialAnswer.refusals run.2.answers) =
      some [.bare .timedOut, .bare .connectionRefused] := by
    decide +kernel
  have hpauses : setback.map (fun run => run.2.pauses) = some [.ofSeconds 3] := by decide +kernel
  obtain ⟨⟨past, r⟩, hr⟩ := Option.isSome_iff_exists.1 hsome
  rw [hr] at hleft hpauses
  have h := Run.of_follow hr
  obtain ⟨later, s, rest, ha, hs⟩ := DialAnswer.split_refusals r.answers
  obtain ⟨⟨refused, hc⟩, -, hcycle, -, -⟩ := redialing h ha hs
  have hp : r.pauses = [.ofSeconds 3] := Option.some.inj hpauses
  have hl : DialAnswer.refusals r.answers = [.bare .timedOut, .bare .connectionRefused] :=
    Option.some.inj hleft
  refine ⟨past, r, h, hl, ?_⟩
  rw [hcycle.pauses, hp, hl, hc.backoff]
  decide +kernel

end Relay
end Telemetry
