import Telemetry.Proofs.Relay.Flush
/-!
A transfer round by round.

A round begins with a reading of the clock. If that is too late the transfer ends; otherwise the
connection gets the time that is left as its bound, and then all that it has not taken yet. `Rounds`
ties each reading to the clock, on which the calls of the rounds before it have taken their time,
and `Paced` is what follows from that for the rounds as a whole. The main statement is
`flush_paced`: the rounds of every flush, whose deadline is fixed before the first one.
-/

namespace Telemetry

/-- The reading that a round begins with, and the calls that it makes. -/
structure Round where
  reading : Moment
  calls : List SinkCall

/-- The bound that the call sets. -/
def SinkCall.span? : SinkCall → Option Nat
  | .limit span _ => some span
  | _ => none

namespace Round

/-- The calls of all rounds, in order. -/
def allCalls (rounds : List Round) : List SinkCall := rounds.flatMap Round.calls

/-- What the calls of all rounds have taken. -/
def allTaken (rounds : List Round) : Bytes := (allCalls rounds).flatMap SinkCall.taken

/-- The bounds of all rounds, in order. -/
def spans (rounds : List Round) : List Nat := (allCalls rounds).filterMap SinkCall.span?

end Round

namespace Sink

/-- The connection with the time left at the next reading as its bound. -/
def limited (s : Sink) (deadline : Moment) (clock : Clock) : Act (Option IoError) × Sink :=
  s.setLimit (deadline - clock.read.now)

/-- The same connection when it was also offered bytes. -/
def sent (s : Sink) (deadline : Moment) (data : Bytes) (clock : Clock) :
    Act (Except IoError Nat) × Sink :=
  (s.limited deadline clock).2.write data

/-- The clock after both calls. -/
def later (s : Sink) (deadline : Moment) (data : Bytes) (clock : Clock) : Clock :=
  (clock.read.pass (s.limited deadline clock).1.delay).pass (s.sent deadline data clock).1.delay

/-- The round in which both calls are made. -/
def round (s : Sink) (deadline : Moment) (data : Bytes) (clock : Clock) : Round where
  reading := clock.read.now
  calls := [.limit (deadline - clock.read.now) none,
    .write data (s.sent deadline data clock).1.answer]

/-- The fault that an answer to a write ends a transfer with. Bytes that were taken, and an
interruption, let it go on. -/
def faultOf : Except IoError Nat → Option IoError
  | .ok n => if n = 0 then some (.bare .writeZero) else none
  | .error e => if e.isInterrupted then none else some e

/-- What a transfer before a deadline comes to, and its rounds. -/
inductive Rounds (deadline : Moment) : Bytes → Sink → Clock → List Round → Transferred → Prop where
  | whole (s : Sink) (clock : Clock) : Rounds deadline [] s clock [] ⟨none, s, clock⟩
  | late {data : Bytes} {s : Sink} {clock : Clock} (left : data ≠ [])
      (late : deadline ≤ clock.read.now) :
      Rounds deadline data s clock [⟨clock.read.now, []⟩] ⟨some (.bare .timedOut), s, clock.read⟩
  | refused {data : Bytes} {s : Sink} {clock : Clock} {e : IoError} (left : data ≠ [])
      (early : clock.read.now < deadline) (answer : (s.limited deadline clock).1.answer = some e) :
      Rounds deadline data s clock
        [⟨clock.read.now, [.limit (deadline - clock.read.now) (some e)]⟩]
        ⟨some e, (s.limited deadline clock).2, clock.read.pass (s.limited deadline clock).1.delay⟩
  | stopped {data : Bytes} {s : Sink} {clock : Clock} {e : IoError} (left : data ≠ [])
      (early : clock.read.now < deadline) (bound : (s.limited deadline clock).1.answer = none)
      (fault : faultOf (s.sent deadline data clock).1.answer = some e) :
      Rounds deadline data s clock [s.round deadline data clock]
        ⟨some e, (s.sent deadline data clock).2, s.later deadline data clock⟩
  | continued {data : Bytes} {s : Sink} {clock : Clock} {rounds : List Round} {r : Transferred}
      (left : data ≠ []) (early : clock.read.now < deadline)
      (bound : (s.limited deadline clock).1.answer = none)
      (go : faultOf (s.sent deadline data clock).1.answer = none)
      (rest : Rounds deadline
        (data.drop (SinkCall.taken (.write data (s.sent deadline data clock).1.answer)).length)
        (s.sent deadline data clock).2 (s.later deadline data clock) rounds r) :
      Rounds deadline data s clock (s.round deadline data clock :: rounds) r

theorem exists_rounds (deadline : Moment) (data : Bytes) (s : Sink) (clock : Clock) :
    ∃ rounds, Rounds deadline data s clock rounds (s.transfer deadline data clock) := by
  fun_induction Sink.transfer deadline data s clock with
  | case1 data s clock hd =>
    cases List.isEmpty_iff.1 hd
    exact ⟨_, .whole s clock⟩
  | case2 data s clock hd late => exact ⟨_, .late (mt List.isEmpty_iff.2 hd) late⟩
  | case3 data s clock hd late limited bounded e ha =>
    exact ⟨_, .refused (mt List.isEmpty_iff.2 hd) (Nat.lt_of_not_le late) ha⟩
  | case4 data s clock hd late limited bounded ha sent later hn =>
    have hf : faultOf (s.sent deadline data clock).1.answer = some (.bare .writeZero) := by
      rw [show (s.sent deadline data clock).1.answer = .ok 0 from hn]
      rfl
    exact ⟨_, .stopped (mt List.isEmpty_iff.2 hd) (Nat.lt_of_not_le late) ha hf⟩
  | case5 data s clock hd late limited bounded ha sent later n hn hpos ih =>
    obtain ⟨rounds, hr⟩ := ih
    have ha' : (s.sent deadline data clock).1.answer = .ok n := hn
    have hf : faultOf (s.sent deadline data clock).1.answer = none := by
      rw [ha']
      exact if_neg hpos
    have hl : (SinkCall.taken (.write data (.ok n))).length = n :=
      List.length_take_of_le (write_le hn)
    refine ⟨_ :: rounds, .continued (mt List.isEmpty_iff.2 hd) (Nat.lt_of_not_le late) ha hf ?_⟩
    rw [ha', hl]
    exact hr
  | case6 data s clock hd late limited bounded ha sent later e he hi ih =>
    obtain ⟨rounds, hr⟩ := ih
    have ha' : (s.sent deadline data clock).1.answer = .error e := he
    have hf : faultOf (s.sent deadline data clock).1.answer = none := by
      rw [ha']
      exact if_pos hi
    refine ⟨_ :: rounds, .continued (mt List.isEmpty_iff.2 hd) (Nat.lt_of_not_le late) ha hf ?_⟩
    rw [ha']
    exact hr
  | case7 data s clock hd late limited bounded ha sent later e he hi =>
    have hf : faultOf (s.sent deadline data clock).1.answer = some e := by
      rw [show (s.sent deadline data clock).1.answer = .error e from he]
      exact if_neg hi
    exact ⟨_, .stopped (mt List.isEmpty_iff.2 hd) (Nat.lt_of_not_le late) ha hf⟩

theorem faultOf_error_eq_none {cause : IoError} :
    faultOf (.error cause) = none ↔ cause.isInterrupted = true := by
  rw [faultOf]
  split
  · next hi => exact ⟨fun _ => hi, fun _ => rfl⟩
  · next hi => exact ⟨nofun, fun h => absurd h hi⟩

theorem taken_append_drop (data : Bytes) (answer : Except IoError Nat) :
    SinkCall.taken (.write data answer) ++
      data.drop (SinkCall.taken (.write data answer)).length = data := by
  cases answer with
  | error e => rfl
  | ok n =>
    show data.take n ++ data.drop (data.take n).length = data
    rw [List.length_take, ← List.drop_eq_drop_min, List.take_append_drop]

theorem taken_of_faultOf {data : Bytes} {answer : Except IoError Nat} {e : IoError}
    (h : faultOf answer = some e) : SinkCall.taken (.write data answer) = [] := by
  cases answer with
  | error e => rfl
  | ok n =>
    by_cases hn : n = 0
    · rw [hn]
      rfl
    · rw [faultOf, if_neg hn] at h
      cases h

end Sink

/-! ## What holds of the rounds -/

/-- Why a transfer fails, by its last round or its last call. -/
inductive Stop (deadline : Moment) (data : Bytes) (rounds : List Round) : IoError → Prop where
  /-- The deadline was reached with bytes left. -/
  | late {round : Round} (last : rounds.getLast? = some round) (late : deadline ≤ round.reading)
      (left : Round.allTaken rounds ≠ data) : Stop deadline data rounds (.bare .timedOut)
  /-- A write took nothing. -/
  | nothing {offered : Bytes}
      (last : (Round.allCalls rounds).getLast? = some (.write offered (.ok 0))) :
      Stop deadline data rounds (.bare .writeZero)
  | limit {span : Nat} {e : IoError}
      (last : (Round.allCalls rounds).getLast? = some (.limit span (some e))) :
      Stop deadline data rounds e
  | write {offered : Bytes} {e : IoError}
      (last : (Round.allCalls rounds).getLast? = some (.write offered (.error e)))
      (final : e.isInterrupted = false) : Stop deadline data rounds e

/-- What holds of the rounds of a transfer. -/
structure Paced (deadline : Moment) (data : Bytes) (s : Sink) (clock : Clock)
    (rounds : List Round) (r : Transferred) : Prop where
  log : r.connection.log = s.log ++ Round.allCalls rounds
  begins : ∀ round ∈ rounds, clock.now ≤ round.reading
  readings : rounds.Pairwise fun a b => a.reading ≤ b.reading
  /-- A bound is all the time that is left at the reading before it, and that is some time. -/
  bounds : ∀ round ∈ rounds, ∀ call ∈ round.calls, ∀ span ∈ call.span?,
    0 < span ∧ round.reading + span = deadline
  lowered : (Round.spans rounds).Pairwise (· ≥ ·)
  /-- A write is offered what the calls before it have left, right behind a bound that was set. -/
  offers : ∀ before offered answer after,
    Round.allCalls rounds = before ++ .write offered answer :: after →
    before.flatMap SinkCall.taken ++ offered = data ∧
      ∃ front span, before = front ++ [.limit span none]
  /-- No call is made once a reading has reached the deadline. -/
  late : ∀ before round after, rounds = before ++ round :: after → deadline ≤ round.reading →
    round.calls = [] ∧ after = []
  /-- Of the writes that fail the interrupted ones are made again, and no others. -/
  retried : ∀ before round after, rounds = before ++ round :: after →
    ∀ offered cause, .write offered (.error cause) ∈ round.calls →
      (after ≠ [] ↔ cause.isInterrupted = true)
  part : Round.allTaken rounds <+: data
  whole : r.fault = none ↔ Round.allTaken rounds = data
  stops : ∀ e, r.fault = some e → Stop deadline data rounds e

namespace Round

theorem allCalls_cons (round : Round) (rounds : List Round) :
    allCalls (round :: rounds) = round.calls ++ allCalls rounds :=
  List.flatMap_cons

theorem allTaken_cons (round : Round) (rounds : List Round) :
    allTaken (round :: rounds) = round.calls.flatMap SinkCall.taken ++ allTaken rounds := by
  rw [allTaken, allCalls_cons, List.flatMap_append]
  rfl

theorem spans_cons (round : Round) (rounds : List Round) :
    spans (round :: rounds) = round.calls.filterMap SinkCall.span? ++ spans rounds := by
  rw [spans, allCalls_cons, List.filterMap_append]
  rfl

theorem mem_spans {rounds : List Round} {span : Nat} (h : span ∈ spans rounds) :
    ∃ round ∈ rounds, ∃ call ∈ round.calls, call.span? = some span := by
  obtain ⟨call, hc, hs⟩ := List.mem_filterMap.1 h
  obtain ⟨round, hr, hc⟩ := List.mem_flatMap.1 hc
  exact ⟨round, hr, call, hc, hs⟩

end Round

theorem Stop.cons {deadline : Moment} {data : Bytes} {rounds : List Round} {e : IoError}
    (h : Stop deadline data rounds e) {round : Round} {whole : Bytes}
    (hw : whole = round.calls.flatMap SinkCall.taken ++ data) :
    Stop deadline whole (round :: rounds) e := by
  have hlast {call : SinkCall} (hl : (Round.allCalls rounds).getLast? = some call) :
      (Round.allCalls (round :: rounds)).getLast? = some call := by
    rw [Round.allCalls_cons, List.getLast?_append, hl, Option.some_or]
  cases h with
  | late last late left =>
    refine .late ?_ late ?_
    · rw [List.getLast?_cons, last]
      rfl
    · rw [Round.allTaken_cons, hw]
      exact fun he => left (List.append_cancel_left he)
  | nothing last => exact .nothing (hlast last)
  | limit last => exact .limit (hlast last)
  | write last final => exact .write (hlast last) final

/-- What holds of one round in which the connection is offered bytes. -/
structure Round.Fair (deadline : Moment) (data : Bytes) (round : Round) : Prop where
  bounds : ∀ call ∈ round.calls, ∀ span ∈ call.span?, 0 < span ∧ round.reading + span = deadline
  lowered : (round.calls.filterMap SinkCall.span?).Pairwise (· ≥ ·)
  offers : ∀ before offered answer after, round.calls = before ++ .write offered answer :: after →
    ∃ span, before = [.limit span none] ∧ offered = data
  late : deadline ≤ round.reading → round.calls = []

/-- A list with one element is split in one way. -/
theorem split_singleton {α : Type} {a b : α} {before after : List α}
    (h : [a] = before ++ b :: after) : before = [] ∧ b = a ∧ after = [] := by
  cases before with
  | nil =>
    injection h with ha hn
    exact ⟨rfl, ha.symm, hn.symm⟩
  | cons x before =>
    injection h with _ hn
    exact absurd hn.symm (by simp)

namespace Round

variable {deadline reading : Moment} {data : Bytes}

theorem fair_late : Fair deadline data ⟨reading, []⟩ where
  bounds := nofun
  lowered := List.Pairwise.nil
  offers := fun before _ _ _ h => absurd h.symm (List.append_ne_nil_of_right_ne_nil before (by simp))
  late := fun _ => rfl

theorem fair_refused (h : reading < deadline) (fault : Option IoError) :
    Fair deadline data ⟨reading, [.limit (deadline - reading) fault]⟩ where
  bounds := by
    intro call hc span hs
    cases List.mem_singleton.1 hc
    cases hs
    exact ⟨Nat.sub_pos_of_lt h, Nat.add_sub_of_le (Nat.le_of_lt h)⟩
  lowered := List.pairwise_singleton ..
  offers := by
    intro before offered answer after hs
    cases before with
    | nil => cases hs
    | cons call before =>
      injection hs with _ hs
      exact absurd hs.symm (List.append_ne_nil_of_right_ne_nil before (by simp))
  late := fun hl => absurd hl (Nat.not_le_of_lt h)

theorem fair_offered (h : reading < deadline) (answer : Except IoError Nat) :
    Fair deadline data ⟨reading, [.limit (deadline - reading) none, .write data answer]⟩ where
  bounds := by
    intro call hc span hs
    rcases List.mem_cons.1 hc with rfl | hc
    · cases hs
      exact ⟨Nat.sub_pos_of_lt h, Nat.add_sub_of_le (Nat.le_of_lt h)⟩
    · cases List.mem_singleton.1 hc
      cases hs
  lowered := List.pairwise_singleton ..
  offers := by
    intro before offered answer' after hs
    cases before with
    | nil => cases hs
    | cons call before =>
      injection hs with hl hs
      obtain ⟨rfl, hw, -⟩ := split_singleton hs
      cases hw
      exact ⟨_, by rw [hl], rfl⟩
  late := fun hl => absurd hl (Nat.not_le_of_lt h)

end Round

namespace Paced

variable {deadline : Moment} {data : Bytes} {s : Sink} {clock : Clock}

/-- A transfer that ends in its first round, in which nothing was taken. -/
theorem ended {round : Round} {r : Transferred} {e : IoError} (fair : round.Fair deadline data)
    (left : data ≠ []) (fault : r.fault = some e) (log : r.connection.log = s.log ++ round.calls)
    (begins : clock.now ≤ round.reading) (taken : round.calls.flatMap SinkCall.taken = [])
    (final : ∀ offered cause, .write offered (.error cause) ∈ round.calls →
      cause.isInterrupted = false)
    (stop : Stop deadline data [round] e) : Paced deadline data s clock [round] r := by
  have hc : Round.allCalls [round] = round.calls := List.flatMap_singleton ..
  have ht : Round.allTaken [round] = [] := by rw [Round.allTaken, hc, taken]
  constructor
  · rw [hc]
    exact log
  · exact List.forall_mem_singleton.2 begins
  · exact List.pairwise_singleton ..
  · exact List.forall_mem_singleton.2 fair.bounds
  · rw [Round.spans, hc]
    exact fair.lowered
  · intro before offered answer after hs
    rw [hc] at hs
    obtain ⟨span, rfl, ho⟩ := fair.offers before offered answer after hs
    rw [ho]
    exact ⟨rfl, [], span, rfl⟩
  · intro before round' after hs hl
    obtain ⟨-, rfl, rfl⟩ := split_singleton hs
    exact ⟨fair.late hl, rfl⟩
  · intro before round' after hs offered cause hm
    obtain ⟨-, rfl, rfl⟩ := split_singleton hs
    rw [final offered cause hm]
    exact ⟨fun h => absurd rfl h, nofun⟩
  · rw [ht]
    exact List.nil_prefix
  · rw [ht, fault]
    exact ⟨nofun, fun h => absurd h.symm left⟩
  · intro e' he
    cases fault.symm.trans he
    exact stop

/-- A transfer that goes on after its first round, in which the first bytes were taken. -/
theorem continued {round : Round} {rounds : List Round} {r : Transferred} {t : Sink}
    {later : Clock} {rest : Bytes} (h : Paced deadline rest t later rounds r)
    (fair : round.Fair deadline data) (log : t.log = s.log ++ round.calls)
    (begins : clock.now ≤ round.reading) (ends : round.reading ≤ later.now)
    (early : round.reading < deadline) (more : rest ≠ [] → rounds ≠ [])
    (data_eq : data = round.calls.flatMap SinkCall.taken ++ rest)
    (interrupted : ∀ offered cause, .write offered (.error cause) ∈ round.calls →
      cause.isInterrupted = true ∧ rest ≠ []) :
    Paced deadline data s clock (round :: rounds) r := by
  have hlater : ∀ round' ∈ rounds, round.reading ≤ round'.reading :=
    fun round' hm => Nat.le_trans ends (h.begins round' hm)
  constructor
  · rw [h.log, log, Round.allCalls_cons, List.append_assoc]
  · exact List.forall_mem_cons.2 ⟨begins, fun round' hm => Nat.le_trans begins (hlater round' hm)⟩
  · exact List.pairwise_cons.2 ⟨hlater, h.readings⟩
  · exact List.forall_mem_cons.2 ⟨fair.bounds, h.bounds⟩
  · -- The rounds to come begin later, so less time is left in them.
    rw [Round.spans_cons]
    refine List.pairwise_append.2 ⟨fair.lowered, h.lowered, fun a ha b hb => ?_⟩
    obtain ⟨call, hc, hs⟩ := List.mem_filterMap.1 ha
    obtain ⟨round', hr, call', hc', hs'⟩ := Round.mem_spans hb
    have hfirst := (fair.bounds call hc a hs).2
    have hother := (h.bounds round' hr call' hc' b hs').2
    have hle := Nat.add_le_add_right (hlater round' hr) b
    rw [hother, ← hfirst] at hle
    exact Nat.le_of_add_le_add_left hle
  · intro before offered answer after hs
    have hother : ∀ between, before = round.calls ++ between →
        Round.allCalls rounds = between ++ .write offered answer :: after →
        before.flatMap SinkCall.taken ++ offered = data ∧
          ∃ front span, before = front ++ [.limit span none] := by
      intro between hb ha
      obtain ⟨hall, front, span, hfront⟩ := h.offers between offered answer after ha
      refine ⟨?_, round.calls ++ front, span, ?_⟩
      · rw [hb, List.flatMap_append, List.append_assoc, hall, data_eq]
      · rw [hb, hfront, List.append_assoc]
    rw [Round.allCalls_cons] at hs
    rcases List.append_eq_append_iff.1 hs with ⟨between, hb, ha⟩ | ⟨between, hb, ha⟩
    · exact hother between hb ha
    · cases between with
      | nil =>
        rw [List.append_nil] at hb
        exact hother [] (by rw [hb, List.append_nil]) ha.symm
      | cons call between =>
        injection ha with hcall _
        rw [← hcall] at hb
        obtain ⟨span, rfl, ho⟩ := fair.offers before offered answer between hb
        exact ⟨ho, [], span, rfl⟩
  · intro before round' after hs hl
    cases before with
    | nil =>
      injection hs with hr
      cases hr
      exact absurd hl (Nat.not_le_of_lt early)
    | cons x before =>
      injection hs with _ hs
      exact h.late before round' after hs hl
  · intro before round' after hs offered cause hm
    cases before with
    | nil =>
      injection hs with hr hn
      cases hr
      cases hn
      obtain ⟨hi, hrest⟩ := interrupted offered cause hm
      exact ⟨fun _ => hi, fun _ => more hrest⟩
    | cons x before =>
      injection hs with _ hs
      exact h.retried before round' after hs offered cause hm
  · rw [Round.allTaken_cons, data_eq]
    exact (List.prefix_append_right_inj _).2 h.part
  · rw [Round.allTaken_cons, h.whole]
    rw [data_eq, List.append_cancel_left_eq]
  · exact fun e he => (h.stops e he).cons data_eq

end Paced

namespace Sink

variable {deadline : Moment} {data : Bytes} {s : Sink} {clock : Clock}

theorem log_limited (s : Sink) (deadline : Moment) (clock : Clock) :
    (s.limited deadline clock).2.log =
      s.log ++ [.limit (deadline - clock.read.now) (s.limited deadline clock).1.answer] :=
  log_setLimit s _

theorem log_sent (bound : (s.limited deadline clock).1.answer = none) :
    (s.sent deadline data clock).2.log = s.log ++ (s.round deadline data clock).calls := by
  have hw := log_write (s.limited deadline clock).2 data
  rw [log_limited, bound, List.append_assoc] at hw
  exact hw

theorem taken_round (s : Sink) (deadline : Moment) (data : Bytes) (clock : Clock) :
    (s.round deadline data clock).calls.flatMap SinkCall.taken =
      SinkCall.taken (.write data (s.sent deadline data clock).1.answer) :=
  List.append_nil _

/-- The write of a round that failed is the one that the round made. -/
theorem answer_of_mem {offered : Bytes} {cause : IoError}
    (h : .write offered (.error cause) ∈ (s.round deadline data clock).calls) :
    (s.sent deadline data clock).1.answer = .error cause := by
  rcases List.mem_cons.1 h with h | h
  · cases h
  · injection List.mem_singleton.1 h with _ ha
    exact ha.symm

theorem le_later (s : Sink) (deadline : Moment) (data : Bytes) (clock : Clock) :
    clock.read.now ≤ (s.later deadline data clock).now :=
  Nat.le_trans (Nat.le_add_right _ _) (Nat.le_add_right _ _)

/-- A transfer with bytes left begins with a round. -/
theorem Rounds.ne_nil {rounds : List Round} {r : Transferred}
    (h : s.Rounds deadline data clock rounds r) (left : data ≠ []) : rounds ≠ [] := by
  cases h with
  | whole => exact absurd rfl left
  | late => exact List.cons_ne_nil _ _
  | refused => exact List.cons_ne_nil _ _
  | stopped => exact List.cons_ne_nil _ _
  | continued => exact List.cons_ne_nil _ _

theorem stop_of_faultOf {e : IoError}
    (fault : faultOf (s.sent deadline data clock).1.answer = some e) :
    Stop deadline data [s.round deadline data clock] e := by
  have hl : (Round.allCalls [s.round deadline data clock]).getLast? =
      some (.write data (s.sent deadline data clock).1.answer) := rfl
  generalize (s.sent deadline data clock).1.answer = answer at fault hl
  cases answer with
  | ok n =>
    by_cases hn : n = 0
    · subst hn
      cases fault
      exact .nothing hl
    · rw [faultOf, if_neg hn] at fault
      cases fault
  | error cause =>
    by_cases hi : cause.isInterrupted = true
    · rw [faultOf, if_pos hi] at fault
      cases fault
    · rw [faultOf, if_neg hi] at fault
      cases fault
      exact .write hl (Bool.eq_false_iff.2 hi)

theorem Rounds.paced {rounds : List Round} {r : Transferred}
    (h : s.Rounds deadline data clock rounds r) : Paced deadline data s clock rounds r := by
  induction h with
  | whole s clock =>
    refine ⟨(List.append_nil _).symm, nofun, .nil, nofun, .nil, ?_, ?_, ?_, List.nil_prefix,
      ⟨fun _ => rfl, fun _ => rfl⟩, nofun⟩
    · exact fun before _ _ _ hs => absurd hs.symm (List.append_ne_nil_of_right_ne_nil before (by simp))
    · exact fun before _ _ hs => absurd hs.symm (List.append_ne_nil_of_right_ne_nil before (by simp))
    · exact fun before _ _ hs => absurd hs.symm (List.append_ne_nil_of_right_ne_nil before (by simp))
  | @late data s clock left late =>
    exact .ended Round.fair_late left rfl (List.append_nil _).symm clock.le_read rfl nofun
      (.late rfl late (Ne.symm left))
  | @refused data s clock e left early answer =>
    have hl := log_limited s deadline clock
    rw [answer] at hl
    refine .ended (Round.fair_refused early _) left rfl hl clock.le_read rfl ?_ (.limit rfl)
    intro offered cause hm
    cases List.mem_singleton.1 hm
  | @stopped data s clock e left early bound fault =>
    refine .ended (Round.fair_offered early _) left rfl (log_sent bound) clock.le_read ?_ ?_
      (stop_of_faultOf fault)
    · rw [taken_round, taken_of_faultOf fault]
    · intro offered cause hm
      rw [answer_of_mem hm] at fault
      exact Bool.eq_false_iff.2 fun hi => nomatch fault.symm.trans (faultOf_error_eq_none.2 hi)
  | @continued data s clock rounds r left early bound go rest ih =>
    refine ih.continued (Round.fair_offered early _) (log_sent bound) clock.le_read
      (s.le_later deadline data clock) early rest.ne_nil ?_ ?_
    · rw [taken_round, taken_append_drop]
    · intro offered cause hm
      rw [answer_of_mem hm] at go ⊢
      exact ⟨faultOf_error_eq_none.1 go, left⟩

end Sink

namespace Transmitter

/-- A flush reads the clock once for its deadline. Then it offers its bytes round by round, each
write right behind a bound of exactly the time that is left at a reading of the round, as long as
some is left. It goes on after an interruption, or with what a write has not taken, and ends without
a fault exactly if all bytes were taken; otherwise its fault is that of its last call, or that the
deadline was reached, and the flush fails with it. -/
theorem flush_paced {t : Transmitter} {s : Sink} {n : Nat} {deadline : Moment}
    (hc : t.connection = some s) (hn : n ≠ 0)
    (hd : Moment.after? t.clock.read.now t.timeout = some deadline) :
    deadline = t.clock.read.now + t.timeout.nanos ∧
    ∃ rounds, s.Rounds deadline (t.pending.take n) t.clock.read rounds
        (s.transfer deadline (t.pending.take n) t.clock.read) ∧
      Paced deadline (t.pending.take n) s t.clock.read rounds
        (s.transfer deadline (t.pending.take n) t.clock.read) ∧
      (∀ e, (s.transfer deadline (t.pending.take n) t.clock.read).fault = some e →
        (t.flush n).1 = .failed (.write n e)) ∧
      ((s.transfer deadline (t.pending.take n) t.clock.read).fault = none →
        ((t.flush n).1 = .done ↔
          (s.transfer deadline (t.pending.take n) t.clock.read).connection.flush.1.answer =
            none)) := by
  obtain ⟨rounds, hr⟩ := s.exists_rounds deadline (t.pending.take n) t.clock.read
  refine ⟨?_, rounds, hr, hr.paced, fun e he => ?_, fun he => ?_⟩
  · unfold Moment.after? at hd
    split at hd
    · cases hd
      rfl
    · cases hd
  · have hs : t.send s n deadline t.clock.read =
        s.transfer deadline (t.pending.take n) t.clock.read := by
      simp only [send, he]
    have hf : (t.send s n deadline t.clock.read).fault = some e := by rw [hs, he]
    simp only [flush, hc, if_neg hn, hd, hf]
  · have hs : (t.send s n deadline t.clock.read).fault =
        (s.transfer deadline (t.pending.take n) t.clock.read).connection.flush.1.answer := by
      simp only [send, he]
    rw [← hs]
    cases hf : (t.send s n deadline t.clock.read).fault with
    | none => simp only [flush, hc, if_neg hn, hd, hf]
    | some e => simp [flush, hc, hn, hd, hf]

/-- A connection that takes two bytes, is interrupted, and takes one more byte too late. -/
def sluggish : Sink :=
  { Sink.ideal with
    writes := ⟨[⟨30, .take (some 2)⟩, ⟨30, .fail (.bare .interrupted)⟩, ⟨50, .take (some 1)⟩],
      ⟨0, .take none⟩⟩
    settles := rfl }

/-- Four bytes with a hundred nanoseconds for a flush, at the tenth nanosecond of the clock. -/
def hurried : Transmitter :=
  { Transmitter.start 1 ⟨100, by decide⟩ ⟨10, [5, 0, 1]⟩ with
    pending := [1, 2, 3, 4]
    connection := some sluggish }

theorem flush_paced_sluggish :
    hurried.connection = some sluggish ∧
    Moment.after? hurried.clock.read.now hurried.timeout = some 115 ∧
    ∃ rounds, sluggish.Rounds 115 [1, 2, 3, 4] hurried.clock.read rounds
        (sluggish.transfer 115 [1, 2, 3, 4] hurried.clock.read) ∧
      Round.spans rounds = [100, 69, 39] ∧ Round.allTaken rounds = [1, 2, 3] ∧
      (hurried.flush 4).1 = .failed (.write 4 (.bare .timedOut)) := by
  have hd : Moment.after? hurried.clock.read.now hurried.timeout = some 115 := by decide
  obtain ⟨-, rounds, hr, hp, hfail, -⟩ := flush_paced (s := sluggish) (n := 4) rfl (by decide) hd
  have hlog : Round.allCalls rounds =
      (sluggish.transfer 115 [1, 2, 3, 4] hurried.clock.read).connection.log :=
    (hp.log.trans (List.nil_append _)).symm
  refine ⟨rfl, hd, rounds, hr, ?_, ?_, hfail _ (by decide +kernel)⟩
  · rw [Round.spans, hlog]
    decide +kernel
  · rw [Round.allTaken, hlog]
    decide +kernel

end Transmitter
end Telemetry
