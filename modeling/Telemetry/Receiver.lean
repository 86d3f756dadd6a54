import Telemetry.Journal.Basic
/-!
Receivers of events, and sending each call to many of them.

A receiver is a leaf, a wrapped receiver, or a fan: a list of receivers. A fan passes every call on
to all its children in order, whatever they answer, and folds their failures into one answer.
Receivers are shared, so a leaf is only a handle: what a call does to it happens in the world, and
two handles may be the same. What a leaf does with a call is a parameter.
-/

namespace Telemetry

inductive Receiver (ι : Type) where
  | leaf (handle : ι)
  | boxed (inner : Receiver ι)
  | fan (children : List (Receiver ι))

namespace Receiver

variable {ι σ : Type}

mutual

/-- The leaves of a receiver, depth first. -/
def leaves : Receiver ι → List ι
  | .leaf i => [i]
  | .boxed r => leaves r
  | .fan rs => leavesAll rs

def leavesAll : List (Receiver ι) → List ι
  | [] => []
  | r :: rs => leaves r ++ leavesAll rs

end

mutual

def deliver (answer : Call → ι → σ → Outcome × σ) (c : Call) : Receiver ι → σ → Outcome × σ
  | .leaf i, w => answer c i w
  | .boxed r, w => deliver answer c r w
  | .fan rs, w =>
    let sent := deliverAll answer c rs w
    (Outcome.fold sent.1, sent.2)

/-- Send a call to each of some receivers and collect the failures. -/
def deliverAll (answer : Call → ι → σ → Outcome × σ) (c : Call) :
    List (Receiver ι) → σ → List Failure × σ
  | [], w => ([], w)
  | r :: rs, w =>
    let first := deliver answer c r w
    let rest := deliverAll answer c rs first.2
    ((Failure.ofOutcome? first.1).toList ++ rest.1, rest.2)

end

theorem leavesAll_append (rs ss : List (Receiver ι)) :
    leavesAll (rs ++ ss) = leavesAll rs ++ leavesAll ss := by
  induction rs with
  | nil => rfl
  | cons r rs ih => simp [leavesAll, ih]

end Receiver

/-- A fan that can grow. -/
structure Fan (ι : Type) where
  children : List (Receiver ι)

namespace Fan

variable {ι σ : Type}

def push (f : Fan ι) (child : Receiver ι) : Fan ι := ⟨f.children ++ [child]⟩

def size (f : Fan ι) : Nat := f.children.length

def isEmpty (f : Fan ι) : Bool := f.children.isEmpty

def toReceiver (f : Fan ι) : Receiver ι := .fan f.children

def leaves (f : Fan ι) : List ι := f.toReceiver.leaves

def deliver (answer : Call → ι → σ → Outcome × σ) (c : Call) (f : Fan ι) (w : σ) : Outcome × σ :=
  f.toReceiver.deliver answer c w

theorem leaves_push (f : Fan ι) (child : Receiver ι) :
    (f.push child).leaves = f.leaves ++ child.leaves := by
  simp [push, leaves, toReceiver, Receiver.leaves, Receiver.leavesAll_append, Receiver.leavesAll]

end Fan

/-- A receiver that records the calls it gets and answers them from a list; past its end every
answer is a success. -/
structure Recorder where
  answers : List (Option Failure)
  calls : List Call

namespace Recorder

def ofAnswers (answers : List (Option Failure)) : Recorder := ⟨answers, []⟩

def answer (c : Call) (r : Recorder) : Outcome × Recorder :=
  let calls := r.calls ++ [c]
  match r.answers with
  | [] => (.ok (), ⟨[], calls⟩)
  | none :: answers => (.ok (), ⟨answers, calls⟩)
  | some f :: answers => (.error f, ⟨answers, calls⟩)

end Recorder

inductive Leaf where
  | recorder (r : Recorder)
  | journal (j : Journal)

namespace Leaf

def answer (c : Call) : Leaf → Outcome × Leaf
  | .recorder r => ((Recorder.answer c r).1, .recorder (Recorder.answer c r).2)
  | .journal j => ((Journal.answer c j).1, .journal (Journal.answer c j).2)

/-- The leaves of a world in the order of their numbers, which are the handles. A handle without a
leaf takes every call. -/
def answerAt (c : Call) (i : Nat) (leaves : List Leaf) : Outcome × List Leaf :=
  match leaves[i]? with
  | none => (.ok (), leaves)
  | some l => ((l.answer c).1, leaves.set i (l.answer c).2)

end Leaf
end Telemetry
