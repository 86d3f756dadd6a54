import Telemetry.Receiver
import Telemetry.Run
/-!
What a call does that is sent to a tree of receivers.

The leaves are called one after the other, depth first, and each of them once, whatever the others
answer. The answer of the tree is a failure if that of some leaf is. Wherever the tree folds
failures, those of one child stand together, so the text of the answer is made of the texts of the
leaves' own failures in their order; one failure alone is never folded. The main statement is
`fan_out`, for every run of calls and pushes.
-/

namespace Telemetry

/-! ## Failures that are folded -/

/-- The failures among some answers, in order. -/
def Outcome.failures (os : List Outcome) : List Failure := os.filterMap Failure.ofOutcome?

/-- The answer that stands for some failures, whichever way they were folded: a success for none,
the failure itself for one, and a failure with all their texts for more. -/
inductive Outcome.Sums : List Failure → Outcome → Prop where
  | none : Sums [] (.ok ())
  | one (f : Failure) : Sums [f] (.error f)
  | many {fs : List Failure} {g : Failure} (more : 2 ≤ fs.length)
      (text : g.message = String.intercalate "; " (fs.map Failure.message)) : Sums fs (.error g)

/-- Failures in groups, and the failure that stands for each of the groups. -/
inductive Outcome.Groups : List Failure → List Failure → Prop where
  | nil : Groups [] []
  | cons {fs rest gs : List Failure} {g : Failure} (group : Sums fs (.error g))
      (others : Groups rest gs) : Groups (fs ++ rest) (g :: gs)

namespace Outcome

theorem failures_append (os ps : List Outcome) :
    failures (os ++ ps) = failures os ++ failures ps :=
  List.filterMap_append

theorem failures_eq_nil {os : List Outcome} : failures os = [] ↔ ∀ o ∈ os, o = .ok () := by
  unfold failures
  rw [List.filterMap_eq_nil_iff]
  constructor
  · intro h o ho
    cases hr : o with
    | ok u => rfl
    | error f =>
      have hn := h o ho
      rw [hr] at hn
      cases hn
  · intro h o ho
    rw [h o ho]
    rfl

theorem Sums.self (o : Outcome) : Sums (failures [o]) o := by
  cases o with
  | ok u => exact .none
  | error f => exact .one f

theorem Sums.ne_nil {fs : List Failure} {g : Failure} (h : Sums fs (.error g)) : fs ≠ [] := by
  cases h with
  | one => simp
  | many more text =>
    intro hn
    rw [hn] at more
    simp at more

theorem Sums.message {fs : List Failure} {g : Failure} (h : Sums fs (.error g)) :
    g.message = String.intercalate "; " (fs.map Failure.message) := by
  cases h with
  | one => simp
  | many more text => exact text

theorem Sums.eq_ok_iff {fs : List Failure} {o : Outcome} (h : Sums fs o) :
    o = .ok () ↔ fs = [] := by
  constructor
  · intro ho
    subst ho
    cases h
    rfl
  · intro hn
    subst hn
    cases h with
    | none => rfl
    | many more text => simp at more

theorem Sums.eq_error {f : Failure} {o : Outcome} (h : Sums [f] o) : o = .error f := by
  cases h with
  | one => rfl
  | many more text => simp at more

/-- A group is never empty, so no group is lost between the separators. -/
theorem Groups.message {fs gs : List Failure} (h : Groups fs gs) :
    String.intercalate "; " (gs.map Failure.message) =
      String.intercalate "; " (fs.map Failure.message) := by
  induction h with
  | nil => rfl
  | @cons fs rest gs g group others ih =>
    have hf : fs.map Failure.message ≠ [] := by
      intro hn
      exact group.ne_nil (List.map_eq_nil_iff.1 hn)
    cases others with
    | nil => simp [group.message]
    | @cons fs' rest' gs' g' group' others' =>
      have hr : (fs' ++ rest').map Failure.message ≠ [] := by
        simp [group'.ne_nil]
      have hsplit : (fs ++ (fs' ++ rest')).map Failure.message =
          fs.map Failure.message ++ (fs' ++ rest').map Failure.message := List.map_append
      rw [List.map_cons, String.intercalate_cons_of_ne_nil (by simp), ih, hsplit,
        String.intercalate_append_of_ne_nil hf hr, group.message]

theorem sums_fold {fs gs : List Failure} (h : Groups fs gs) : Sums fs (fold gs) := by
  have hm := h.message
  cases h with
  | nil => exact .none
  | @cons fs rest gs g group others =>
    cases others with
    | nil =>
      rw [List.append_nil]
      exact group
    | @cons fs' rest' gs' g' group' others' =>
      have hf := List.length_pos_iff.2 group.ne_nil
      have hf' := List.length_pos_iff.2 group'.ne_nil
      refine .many ?_ ?_
      · simp only [List.length_append]
        omega
      · rw [← hm]
        exact Failure.message_several _

end Outcome

/-! ## One call -/

namespace Receiver

variable {ι σ : Type}

/-- Call some leaves, one after the other. -/
def sweep (answer : Call → ι → σ → Outcome × σ) (c : Call) : List ι → σ → List Outcome × σ
  | [], w => ([], w)
  | i :: is, w =>
    let first := answer c i w
    let rest := sweep answer c is first.2
    (first.1 :: rest.1, rest.2)

theorem sweep_append (answer : Call → ι → σ → Outcome × σ) (c : Call) (is js : List ι) (w : σ) :
    sweep answer c (is ++ js) w =
      ((sweep answer c is w).1 ++ (sweep answer c js (sweep answer c is w).2).1,
        (sweep answer c js (sweep answer c is w).2).2) := by
  induction is generalizing w with
  | nil => rfl
  | cons i is ih => simp [sweep, ih]

/-- What is left of a call to leaves that fold their failures. -/
theorem groups_sent {fs gs : List Failure} {os : List Outcome} {o : Outcome}
    (h : Outcome.Sums (Outcome.failures os) o) (hr : Outcome.Groups fs gs) :
    Outcome.Groups (Outcome.failures os ++ fs) ((Failure.ofOutcome? o).toList ++ gs) := by
  cases o with
  | ok u =>
    rw [h.eq_ok_iff.1 rfl]
    exact hr
  | error f => exact .cons h hr

mutual

/-- Sending a call to a receiver is a sweep over its leaves. -/
theorem deliver_sweep (answer : Call → ι → σ → Outcome × σ) (c : Call) (r : Receiver ι) (w : σ) :
    (deliver answer c r w).2 = (sweep answer c r.leaves w).2 ∧
      Outcome.Sums (Outcome.failures (sweep answer c r.leaves w).1) (deliver answer c r w).1 := by
  cases r with
  | leaf i => exact ⟨rfl, Outcome.Sums.self _⟩
  | boxed inner =>
    have h := deliver_sweep answer c inner w
    simpa only [deliver, leaves] using h
  | fan rs =>
    obtain ⟨hw, hg⟩ := deliverAll_sweep answer c rs w
    simp only [deliver, leaves]
    exact ⟨hw, Outcome.sums_fold hg⟩

theorem deliverAll_sweep (answer : Call → ι → σ → Outcome × σ) (c : Call)
    (rs : List (Receiver ι)) (w : σ) :
    (deliverAll answer c rs w).2 = (sweep answer c (leavesAll rs) w).2 ∧
      Outcome.Groups (Outcome.failures (sweep answer c (leavesAll rs) w).1)
        (deliverAll answer c rs w).1 := by
  cases rs with
  | nil => exact ⟨rfl, .nil⟩
  | cons r rs =>
    obtain ⟨hw, hs⟩ := deliver_sweep answer c r w
    obtain ⟨hv, hg⟩ := deliverAll_sweep answer c rs (deliver answer c r w).2
    simp only [deliverAll, leavesAll, sweep_append, Outcome.failures_append]
    rw [hw] at hv hg ⊢
    exact ⟨hv, groups_sent hs hg⟩

end

end Receiver

/-! ## Runs -/

/-- A fan in its world, and every call that reached a leaf, in order. -/
structure Switchboard (ι σ : Type) where
  fan : Fan ι
  world : σ
  heard : List (ι × Call)

namespace Switchboard

variable {ι σ : Type}

inductive Move (ι : Type) where
  | call (c : Call)
  | push (child : Receiver ι)

/-- A leaf answers, and the call is put on record. -/
def traced (answer : Call → ι → σ → Outcome × σ) (c : Call) (i : ι) (w : σ × List (ι × Call)) :
    Outcome × σ × List (ι × Call) :=
  ((answer c i w.1).1, (answer c i w.1).2, w.2 ++ [(i, c)])

/-- Send a call to the fan: the answer, and what the leaves made of it. -/
def send (answer : Call → ι → σ → Outcome × σ) (s : Switchboard ι σ) (c : Call) :
    Outcome × Switchboard ι σ :=
  let sent := s.fan.deliver (traced answer) c (s.world, s.heard)
  (sent.1, { s with world := sent.2.1, heard := sent.2.2 })

def step (answer : Call → ι → σ → Outcome × σ) (s : Switchboard ι σ) :
    Move ι → Option (Switchboard ι σ)
  | .call c => some (s.send answer c).2
  | .push child => some { s with fan := s.fan.push child }

/-- The leaves that the move adds. -/
def pushed : Switchboard ι σ × Move ι → List ι
  | (_, .push child) => child.leaves
  | _ => []

/-- The leaves that the move has to reach, with the call. -/
def reached : Switchboard ι σ × Move ι → List (ι × Call)
  | (s, .call c) => s.fan.leaves.map fun i => (i, c)
  | _ => []

/-- What the leaves that are there answer to a call, in order. -/
def answers (answer : Call → ι → σ → Outcome × σ) (s : Switchboard ι σ) (c : Call) : List Outcome :=
  (Receiver.sweep answer c s.fan.leaves s.world).1

theorem sweep_traced (answer : Call → ι → σ → Outcome × σ) (c : Call) (is : List ι)
    (w : σ × List (ι × Call)) :
    Receiver.sweep (traced answer) c is w =
      ((Receiver.sweep answer c is w.1).1, (Receiver.sweep answer c is w.1).2,
        w.2 ++ is.map fun i => (i, c)) := by
  induction is generalizing w with
  | nil => simp [Receiver.sweep]
  | cons i is ih => simp [Receiver.sweep, ih, traced]

/-- A call goes to every leaf, and the answer stands for the failures of them all. -/
theorem send_sums (answer : Call → ι → σ → Outcome × σ) (s : Switchboard ι σ) (c : Call) :
    (s.send answer c).2.heard = s.heard ++ reached (s, .call c) ∧
      Outcome.Sums (Outcome.failures (s.answers answer c)) (s.send answer c).1 := by
  have h := Receiver.deliver_sweep (traced answer) c s.fan.toReceiver (s.world, s.heard)
  rw [sweep_traced] at h
  obtain ⟨hw, hs⟩ := h
  exact ⟨congrArg (·.2) hw, hs⟩

theorem heard_step {answer : Call → ι → σ → Outcome × σ} {s t : Switchboard ι σ} {m : Move ι}
    (h : s.step answer m = some t) : t.heard = s.heard ++ reached (s, m) := by
  cases m with
  | call c =>
    cases h
    exact (s.send_sums answer c).1
  | push child =>
    cases h
    exact (List.append_nil _).symm

theorem leaves_step {answer : Call → ι → σ → Outcome × σ} {s t : Switchboard ι σ} {m : Move ι}
    (h : s.step answer m = some t) : t.fan.leaves = s.fan.leaves ++ pushed (s, m) := by
  cases m with
  | call c =>
    cases h
    exact (List.append_nil _).symm
  | push child =>
    cases h
    exact s.fan.leaves_push child

variable {answer : Call → ι → σ → Outcome × σ} {first s : Switchboard ι σ}
  {past : List (Switchboard ι σ × Move ι)}

theorem run_heard (h : Run (step answer) first past s) :
    s.heard = first.heard ++ past.flatMap reached ∧
      s.fan.leaves = first.fan.leaves ++ past.flatMap pushed := by
  induction h with
  | start => simp
  | next before enabled ih =>
    rw [heard_step enabled, leaves_step enabled, ih.1, ih.2]
    simp

/-- In every run of calls and pushes, whatever the leaves answer: the calls that reached a leaf are,
call by call, one for each leaf that was there, depth first. Those are the leaves of the start and
of what was pushed before. The answer to a call is a success exactly if all these leaves answer with
one; the text of any other answer is made of the texts of their failures in order, and a failure
that is the only one is the answer itself. -/
theorem fan_out (h : Run (step answer) first past s) :
    s.heard = first.heard ++ past.flatMap reached ∧
    s.fan.leaves = first.fan.leaves ++ past.flatMap pushed ∧
    ∀ before t c after, past = before ++ (t, .call c) :: after →
      t.heard = first.heard ++ before.flatMap reached ∧
      t.fan.leaves = first.fan.leaves ++ before.flatMap pushed ∧
      ((t.send answer c).1 = .ok () ↔ ∀ o ∈ t.answers answer c, o = .ok ()) ∧
      (∀ f, (t.send answer c).1 = .error f → f.message =
        String.intercalate "; " ((Outcome.failures (t.answers answer c)).map Failure.message)) ∧
      (∀ f, Outcome.failures (t.answers answer c) = [f] → (t.send answer c).1 = .error f) := by
  obtain ⟨hheard, hleaves⟩ := run_heard h
  refine ⟨hheard, hleaves, fun before t c after hp => ?_⟩
  obtain ⟨hb, hl⟩ := run_heard (h.before hp)
  obtain ⟨-, hs⟩ := t.send_sums answer c
  refine ⟨hb, hl, ?_, fun f hf => ?_, fun f hf => ?_⟩
  · rw [hs.eq_ok_iff, Outcome.failures_eq_nil]
  · rw [hf] at hs
    exact hs.message
  · rw [hf] at hs
    exact hs.eq_error

/-- Three recorders. The first one fails its first two calls, and the last one the first call, with
a failure that is folded already. -/
def recorders : List Leaf :=
  [.recorder (.ofAnswers [some (.io (.bare .brokenPipe)), some (.discard 1 "late")]),
   .recorder (.ofAnswers []),
   .recorder (.ofAnswers [some (.several [.queueFull "a", .queueClosed "b"])])]

/-- A tree with a wrapped fan in it, and an empty one in that. -/
def nested : Switchboard Nat (List Leaf) :=
  ⟨⟨[.leaf 0, .boxed (.fan [.leaf 1, .fan [], .leaf 2])]⟩, recorders, []⟩

/-- After a first call the tree gets a leaf that it has already. -/
def regrown : Switchboard Nat (List Leaf) :=
  { (nested.send Leaf.answerAt .close).2 with fan := nested.fan.push (.leaf 1) }

theorem fan_out_nested : ∃ past s, Run (step Leaf.answerAt) nested past s ∧
    past.map (·.2) = [.call .close, .push (.leaf 1), .call .close] ∧
    s.heard.map (·.1) = [0, 1, 2, 0, 1, 2, 1] ∧
    (∀ f, (nested.send Leaf.answerAt .close).1 = .error f → f.message =
      "io error: broken pipe; discarding a because the metric queue is full; " ++
        "discarding b because the metric queue was closed") ∧
    (regrown.send Leaf.answerAt .close).1 = .error (.discard 1 "late") := by
  have hr : Run.follow (step Leaf.answerAt) nested [.call .close, .push (.leaf 1), .call .close] =
      some ([(nested, .call .close), ((nested.send Leaf.answerAt .close).2, .push (.leaf 1)),
        (regrown, .call .close)], (regrown.send Leaf.answerAt .close).2) := rfl
  have hheard : ([(nested, .call .close), ((nested.send Leaf.answerAt .close).2, .push (.leaf 1)),
      (regrown, .call .close)].flatMap reached).map (·.1) = [0, 1, 2, 0, 1, 2, 1] := rfl
  have htexts : (Outcome.failures (nested.answers Leaf.answerAt .close)).map Failure.message =
      ["io error: broken pipe", "discarding a because the metric queue is full; " ++
        "discarding b because the metric queue was closed"] := by decide +kernel
  have hone : Outcome.failures (regrown.answers Leaf.answerAt .close) = [.discard 1 "late"] := rfl
  have h := Run.of_follow hr
  obtain ⟨hall, -, hcalls⟩ := fan_out h
  obtain ⟨-, -, -, htext, -⟩ := hcalls [] nested .close _ rfl
  obtain ⟨-, -, -, -, hself⟩ := hcalls [_, _] regrown .close [] rfl
  refine ⟨_, _, h, rfl, ?_, fun f hf => ?_, hself _ hone⟩
  · rw [hall]
    exact hheard
  · rw [htext f hf, htexts]
    decide +kernel

end Switchboard
end Telemetry
