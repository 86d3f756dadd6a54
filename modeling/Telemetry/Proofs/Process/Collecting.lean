import Mathlib.Algebra.GroupWithZero.Nat
import Mathlib.Data.List.DropRight
import Telemetry.Process.Collector
import Telemetry.Proofs.Receiver.FanOut
import Telemetry.Run
/-!
What a collector reports over its whole history.

A collection that cannot read, parse or list something is as if it had not been made. Every other
one makes all of its calls and remembers the counters it read, whatever the receiver answers. So
what is added to a counter is how much it has grown since the latest of these, and as long as the
counter does not go back, what was added since the collector turned to the process sums to the
counter itself.
-/

namespace Telemetry

/-! ## One collection -/

theorem Except.toOption_mapError {ε δ α : Type} (f : ε → δ) (x : Except ε α) :
    (x.mapError f).toOption = x.toOption := by
  cases x with
  | error e => rfl
  | ok a => rfl

theorem Except.toOption_bind {ε α β : Type} (x : Except ε α) (f : α → Except ε β) :
    (x >>= f).toOption = x.toOption.bind fun a => (f a).toOption := by
  cases x with
  | error e => rfl
  | ok a => rfl

namespace ProcessFiles

/-- The tables that can be read and parsed. -/
def status? (files : ProcessFiles) : Option Status :=
  files.status.toOption.bind fun text => (Status.parse text).toOption

def limits? (files : ProcessFiles) : Option Limits :=
  files.limits.toOption.bind fun text => (Limits.parse text).toOption

def stat? (files : ProcessFiles) : Option Stat :=
  files.stat.toOption.bind fun text => (Stat.parse text).toOption

/-- What the files of a process show, if everything can be read, parsed and listed. -/
def sample? (files : ProcessFiles) : Option Sample := do
  return ⟨← files.status?, ← files.limits?, ← files.stat?, ← files.descriptors.toOption⟩

theorem sample?_eq_none {files : ProcessFiles} :
    files.sample? = none ↔ files.status? = none ∨ files.limits? = none ∨ files.stat? = none ∨
      files.descriptors.toOption = none := by
  unfold sample?
  cases files.status? <;> cases files.limits? <;> cases files.stat? <;>
    cases files.descriptors.toOption <;> simp

end ProcessFiles

/-- The counters of a process. -/
inductive Totals.Kind where
  | userTime
  | systemTime
  | voluntarySwitches
  | involuntarySwitches
  | minorFaults
  | majorFaults
  deriving DecidableEq

namespace Totals

namespace Kind

/-- In the order in which they are reported. -/
def all : List Kind :=
  [.userTime, .systemTime, .voluntarySwitches, .involuntarySwitches, .minorFaults, .majorFaults]

def name : Kind → String
  | .userTime => "process.cpu.user"
  | .systemTime => "process.cpu.system"
  | .voluntarySwitches => "process.context_switches.voluntary"
  | .involuntarySwitches => "process.context_switches.involuntary"
  | .minorFaults => "process.faults.minor"
  | .majorFaults => "process.faults.major"

def help : Kind → String
  | .userTime => "cpu time spent in user mode in seconds"
  | .systemTime => "cpu time spent in kernel mode in seconds"
  | _ => ""

/-- What is added to the counter: clock ticks are given in seconds. -/
def amount (k : Kind) (ticks delta : Nat) : Binary64 :=
  match k with
  | .userTime => (Binary64.ofNat delta).dividedBy (.ofNat ticks)
  | .systemTime => (Binary64.ofNat delta).dividedBy (.ofNat ticks)
  | _ => .ofNat delta

end Kind

def get (t : Totals) : Kind → Nat
  | .userTime => t.userTime
  | .systemTime => t.systemTime
  | .voluntarySwitches => t.voluntarySwitches
  | .involuntarySwitches => t.involuntarySwitches
  | .minorFaults => t.minorFaults
  | .majorFaults => t.majorFaults

theorem get_zero (k : Kind) : zero.get k = 0 := by
  cases k <;> rfl

end Totals

/-- A gauge of a process: its name, its help text and its value. -/
structure Level where
  name : String
  help : String
  value : Nat

namespace Sample

/-- Where the tables have the counters. -/
def counter (s : Sample) : Totals.Kind → Nat
  | .userTime => s.stat.userTime
  | .systemTime => s.stat.systemTime
  | .voluntarySwitches => s.status.voluntarySwitches
  | .involuntarySwitches => s.status.involuntarySwitches
  | .minorFaults => s.stat.minorFaults
  | .majorFaults => s.stat.majorFaults

/-- The number in the first row for open files, if its soft limit is one. -/
def openLimit? (s : Sample) : Option Nat :=
  match s.limits.rows.find? fun row => row.name == "Max open files" with
  | none => none
  | some row => row.soft

/-- The gauges, in the order in which they are reported. -/
def levels (s : Sample) : List Level :=
  [⟨"process.threads", "number of threads", s.status.threads⟩,
   ⟨"process.memory.rss", "resident set size in bytes", s.status.residentSize⟩,
   ⟨"process.memory.vsize", "virtual memory size in bytes", s.status.virtualSize⟩,
   ⟨"process.fd.open", "number of open file descriptors", s.descriptors⟩] ++
  match s.openLimit? with
  | none => []
  | some n => [⟨"process.fd.max", "soft limit of open file descriptors", n⟩]

theorem openLimit?_eq (s : Sample) : s.openLimit? = s.limits.openFiles?.bind Limit.soft := by
  unfold openLimit? Limits.openFiles? Limits.get?
  cases s.limits.rows.find? fun row => row.name == "Max open files" with
  | none => rfl
  | some row => rfl

theorem get_totals (s : Sample) (k : Totals.Kind) : s.totals.get k = s.counter k := by
  cases k with
  | userTime => rfl
  | systemTime => rfl
  | voluntarySwitches => rfl
  | involuntarySwitches => rfl
  | minorFaults => rfl
  | majorFaults => rfl

end Sample

namespace Collector

/-- The event that sets a gauge. -/
def setting (c : Collector) (l : Level) : Event := ⟨⟨l.name, l.help, c.tags⟩, .set (.ofNat l.value)⟩

/-- The event that adds a delta to a counter. -/
def adding (c : Collector) (k : Totals.Kind) (delta : Nat) : Event :=
  ⟨⟨k.name, k.help, c.tags⟩, .add (k.amount c.ticks delta)⟩

theorem gauges_eq (c : Collector) (s : Sample) : c.gauges s = s.levels.map c.setting := by
  unfold gauges Sample.levels
  rw [s.openLimit?_eq, List.map_append]
  cases s.limits.openFiles?.bind Limit.soft with
  | none => rfl
  | some n => rfl

theorem counters_eq (c : Collector) (s : Sample) :
    c.counters s.totals =
      Totals.Kind.all.map fun k => c.adding k (s.counter k - c.last.get k) := rfl

/-- Whether a sample can be taken is decided by the files alone. -/
theorem toOption_sample (c : Collector) (files : ProcessFiles) :
    (c.sample files).toOption = files.sample? := by
  simp only [sample, ProcessFiles.sample?, ProcessFiles.status?, ProcessFiles.limits?,
    ProcessFiles.stat?, Except.toOption_bind, Except.toOption_mapError, Option.bind_eq_bind,
    Option.bind_assoc]
  rfl

theorem sample_ok {files : ProcessFiles} {s : Sample} (c : Collector)
    (h : files.sample? = some s) : c.sample files = .ok s := by
  rw [← c.toOption_sample] at h
  cases hs : c.sample files with
  | error f =>
    rw [hs] at h
    exact nomatch h
  | ok s' =>
    rw [hs] at h
    exact congrArg Except.ok (Option.some.inj h)

theorem sample_error {files : ProcessFiles} (c : Collector) (h : files.sample? = none) :
    ∃ f, c.sample files = .error f := by
  rw [← c.toOption_sample] at h
  cases hs : c.sample files with
  | error f => exact ⟨f, rfl⟩
  | ok s =>
    rw [hs] at h
    exact nomatch h

/-! ## What a receiver gets and answers -/

variable {β : Type}

/-- What a receiver answers to some events, one after the other. -/
def tell (deliver : Call → β → Outcome × β) : List Event → β → List Outcome × β
  | [], b => ([], b)
  | e :: es, b =>
    let first := deliver (.event e) b
    let rest := tell deliver es first.2
    (first.1 :: rest.1, rest.2)

theorem sendAll_eq (deliver : Call → β → Outcome × β) (es : List Event) (b : β) :
    sendAll deliver es b =
      (Outcome.failures (tell deliver es b).1, (tell deliver es b).2) := by
  induction es generalizing b with
  | nil => rfl
  | cons e es ih =>
    simp only [sendAll, tell, ih, Outcome.failures, List.filterMap_cons]
    cases (deliver (.event e) b).1 with
    | error f => rfl
    | ok u => rfl

/-- A receiver with a record of the calls that it got. -/
def traced (deliver : Call → β → Outcome × β) (c : Call) (w : β × List Call) :
    Outcome × β × List Call :=
  ((deliver c w.1).1, (deliver c w.1).2, w.2 ++ [c])

theorem tell_traced (deliver : Call → β → Outcome × β) (es : List Event) (w : β × List Call) :
    tell (traced deliver) es w =
      ((tell deliver es w.1).1, (tell deliver es w.1).2, w.2 ++ es.map Call.event) := by
  induction es generalizing w with
  | nil => simp [tell]
  | cons e es ih => simp [tell, ih, traced]

end Collector

theorem Outcome.fold_eq_ok {fs : List Failure} : fold fs = .ok () ↔ fs = [] := by
  match fs with
  | [] => exact ⟨fun _ => rfl, fun _ => rfl⟩
  | [f] => exact ⟨nofun, nofun⟩
  | f :: g :: fs => exact ⟨nofun, nofun⟩

/-! ## Runs -/

/-- A collector with the receiver that it reports to, and every call that this one got, in order. -/
structure Watch (β : Type) where
  collector : Collector
  world : β
  heard : List Call

namespace Watch

open Collector (traced tell)

variable {β : Type}

inductive Move where
  | collect (files : ProcessFiles)
  | withDir (dir : String)
  | withPid (root : String) (pid : Nat)
  | withTicks (ticks : Nat)
  | withTags (tags : Tags)

/-- A new collector, and a receiver that has got no call from it. -/
def start (world : β) : Watch β := ⟨.start, world, []⟩

/-- Collect once: what is answered, and what it leaves. -/
def collect (deliver : Call → β → Outcome × β) (w : Watch β) (files : ProcessFiles) :
    Except Collector.Fault Unit × Watch β :=
  let done := w.collector.collect files (traced deliver) (w.world, w.heard)
  (done.1, ⟨done.2.1, done.2.2.1, done.2.2.2⟩)

def step (deliver : Call → β → Outcome × β) (w : Watch β) : Move → Option (Watch β)
  | .collect files => some (w.collect deliver files).2
  | .withDir dir => some { w with collector := w.collector.withDir dir }
  | .withPid root pid => some { w with collector := w.collector.withPid root pid }
  | .withTicks ticks => some { w with collector := w.collector.withTicks ticks }
  | .withTags tags => some { w with collector := w.collector.withTags tags }

/-- What the receiver answers to the events of a sample. -/
def answers (deliver : Call → β → Outcome × β) (w : Watch β) (s : Sample) : List Outcome :=
  (tell deliver (w.collector.events s) w.world).1

/-- The watch after all the events of a sample. -/
def after (deliver : Call → β → Outcome × β) (w : Watch β) (s : Sample) : Watch β where
  collector := { w.collector with last := s.totals }
  world := (tell deliver (w.collector.events s) w.world).2
  heard := w.heard ++ (w.collector.events s).map Call.event

/-! ### What a move does -/

/-- The sample that the move takes. -/
def sampled : Watch β × Move → Option Sample
  | (_, .collect files) => files.sample?
  | _ => none

/-- The move is a collection that takes no sample. -/
def isLost : Watch β × Move → Bool
  | (_, .collect files) => files.sample?.isNone
  | _ => false

/-- The move turns the collector to a process. -/
def isSwitch : Watch β × Move → Bool
  | (_, .withDir _) => true
  | (_, .withPid _ _) => true
  | _ => false

/-- By how much a counter has grown since the collector read it last. -/
def grown (w : Watch β) (k : Totals.Kind) (s : Sample) : Nat :=
  s.counter k - w.collector.last.get k

/-- The calls that the move makes. -/
def reported (x : Watch β × Move) : List Call :=
  match sampled x with
  | none => []
  | some s =>
    (s.levels.map x.1.collector.setting ++
      Totals.Kind.all.map fun k => x.1.collector.adding k (x.1.grown k s)).map Call.event

/-- The moves since the collector was made or turned to a process. -/
def recent (past : List (Watch β × Move)) : List (Watch β × Move) :=
  past.rtakeWhile fun x => !isSwitch x

/-- What was read of a counter since then. -/
def readings (k : Totals.Kind) (past : List (Watch β × Move)) : List Nat :=
  (recent past).filterMap fun x => (sampled x).map fun s => s.counter k

/-- What was read of it last, or zero if it was not read since then. -/
def previous (k : Totals.Kind) (past : List (Watch β × Move)) : Nat := (readings k past).getLastD 0

/-- What was added to a counter since then. -/
def deltas (k : Totals.Kind) (past : List (Watch β × Move)) : List Nat :=
  (recent past).filterMap fun x => (sampled x).map (x.1.grown k)

/-! ### One move -/

theorem collect_lost (deliver : Call → β → Outcome × β) (w : Watch β) {files : ProcessFiles}
    (h : files.sample? = none) : ∃ f, w.collect deliver files = (.error f, w) := by
  obtain ⟨f, hf⟩ := w.collector.sample_error h
  refine ⟨f, ?_⟩
  unfold collect Collector.collect
  rw [hf]

theorem collect_sampled (deliver : Call → β → Outcome × β) (w : Watch β) {files : ProcessFiles}
    {s : Sample} (h : files.sample? = some s) :
    w.collect deliver files =
      ((Outcome.fold (Outcome.failures (w.answers deliver s))).mapError .unreported,
        w.after deliver s) := by
  unfold collect Collector.collect
  rw [w.collector.sample_ok h]
  dsimp only
  rw [Collector.sendAll_eq, Collector.tell_traced]
  rfl

theorem collect_ok_iff (deliver : Call → β → Outcome × β) (w : Watch β) {files : ProcessFiles}
    {s : Sample} (h : files.sample? = some s) :
    (w.collect deliver files).1 = .ok () ↔ ∀ o ∈ w.answers deliver s, o = .ok () := by
  rw [w.collect_sampled deliver h, ← Outcome.failures_eq_nil, ← Outcome.fold_eq_ok]
  dsimp only
  cases Outcome.fold (Outcome.failures (w.answers deliver s)) with
  | error f => exact ⟨nofun, nofun⟩
  | ok u => exact ⟨fun _ => rfl, fun _ => rfl⟩

/-- All that a move can do: it collects without a sample or with one, or it sets the collector
up. -/
inductive Steps (deliver : Call → β → Outcome × β) (w : Watch β) : Move → Watch β → Prop where
  | lost {files : ProcessFiles} (unread : sampled (w, .collect files) = none) :
      Steps deliver w (.collect files) w
  | collected {files : ProcessFiles} {s : Sample} (read : sampled (w, .collect files) = some s) :
      Steps deliver w (.collect files) (w.after deliver s)
  | setUp {m : Move} {c : Collector} (quiet : sampled (w, m) = none) (whole : isLost (w, m) = false)
      (last : c.last = if isSwitch (w, m) then .zero else w.collector.last) :
      Steps deliver w m { w with collector := c }

theorem step_cases {deliver : Call → β → Outcome × β} {w w' : Watch β} {m : Move}
    (h : w.step deliver m = some w') : Steps deliver w m w' := by
  cases m with
  | collect files =>
    cases h
    cases hs : files.sample? with
    | none =>
      obtain ⟨f, hf⟩ := w.collect_lost deliver hs
      rw [hf]
      exact .lost hs
    | some s =>
      rw [w.collect_sampled deliver hs]
      exact .collected hs
  | withDir dir =>
    cases h
    exact .setUp rfl rfl rfl
  | withPid root pid =>
    cases h
    exact .setUp rfl rfl rfl
  | withTicks ticks =>
    cases h
    refine .setUp rfl rfl ?_
    unfold Collector.withTicks
    split
    · rfl
    · rfl
  | withTags tags =>
    cases h
    exact .setUp rfl rfl rfl

theorem step_lost {deliver : Call → β → Outcome × β} {w w' : Watch β} {m : Move}
    (h : w.step deliver m = some w') (hl : isLost (w, m) = true) : w' = w := by
  cases step_cases h with
  | lost unread => rfl
  | @collected files s read =>
    have hs : files.sample? = some s := read
    rw [isLost, hs] at hl
    exact nomatch hl
  | setUp quiet whole last => exact nomatch whole.symm.trans hl

theorem reported_sampled {x : Watch β × Move} {s : Sample} (h : sampled x = some s) :
    reported x = (x.1.collector.events s).map Call.event := by
  unfold reported Collector.events
  rw [h, Collector.gauges_eq, Collector.counters_eq]
  rfl

theorem reported_none {x : Watch β × Move} (h : sampled x = none) : reported x = [] := by
  unfold reported
  rw [h]

theorem heard_step {deliver : Call → β → Outcome × β} {w w' : Watch β} {m : Move}
    (h : w.step deliver m = some w') : w'.heard = w.heard ++ reported (w, m) := by
  cases step_cases h with
  | lost unread => rw [reported_none unread, List.append_nil]
  | collected read => rw [reported_sampled read, after]
  | setUp quiet whole last => rw [reported_none quiet, List.append_nil]

/-! ### Whole runs -/

theorem filterMap_recent {γ : Type} (f : Watch β × Move → Option γ)
    (past : List (Watch β × Move)) (x : Watch β × Move) :
    (recent (past ++ [x])).filterMap f =
      if isSwitch x then [] else (recent past).filterMap f ++ (f x).toList := by
  unfold recent
  rw [List.rtakeWhile_concat]
  cases isSwitch x with
  | true => rfl
  | false =>
    rw [Bool.not_false, if_pos rfl, if_neg Bool.false_ne_true, List.filterMap_append]
    cases hf : f x with
    | none => simp [hf]
    | some y => simp [hf]

theorem previous_concat (k : Totals.Kind) (past : List (Watch β × Move)) (x : Watch β × Move) :
    previous k (past ++ [x]) =
      if isSwitch x then 0
      else ((sampled x).map fun s => s.counter k).getD (previous k past) := by
  unfold previous readings
  rw [filterMap_recent]
  split
  · rfl
  · cases sampled x with
    | none => simp
    | some s => simp

/-- A bound of all readings is one of the last reading, or of zero if there is none. -/
theorem previous_le {k : Totals.Kind} {past : List (Watch β × Move)} {n : Nat}
    (h : ∀ m ∈ readings k past, m ≤ n) : previous k past ≤ n := by
  unfold previous
  rcases List.eq_nil_or_concat (readings k past) with hr | ⟨ms, m, hr⟩
  · rw [hr]
    exact Nat.zero_le n
  · rw [hr, List.concat_eq_append] at h ⊢
    rw [List.getLastD_concat]
    exact h m (List.mem_append_right ms (List.mem_singleton.2 rfl))

variable {deliver : Call → β → Outcome × β} {world : β} {w : Watch β}
  {past : List (Watch β × Move)}

theorem run_heard (h : Run (step deliver) (start world) past w) :
    w.heard = past.flatMap reported := by
  induction h with
  | start => rfl
  | next before enabled ih =>
    rw [heard_step enabled, ih, List.flatMap_append, List.flatMap_singleton]

theorem run_last (h : Run (step deliver) (start world) past w) (k : Totals.Kind) :
    w.collector.last.get k = previous k past := by
  induction h with
  | start => exact Totals.get_zero k
  | @next past w w' m before enabled ih =>
    rw [previous_concat, ← ih]
    cases step_cases enabled with
    | lost unread =>
      rw [unread]
      rfl
    | @collected files s read =>
      rw [read]
      exact s.get_totals k
    | setUp quiet whole last =>
      rw [quiet, last]
      cases isSwitch (w, m) with
      | true => exact Totals.get_zero k
      | false => rfl

/-- As long as a counter does not go back, the deltas sum to what was read last. -/
theorem run_deltas (h : Run (step deliver) (start world) past w) (k : Totals.Kind)
    (hk : (readings k past).Pairwise (· ≤ ·)) : (deltas k past).sum = previous k past := by
  induction h with
  | start => rfl
  | @next past w w' m before enabled ih =>
    rw [previous_concat]
    unfold deltas
    unfold readings at hk
    rw [filterMap_recent] at hk ⊢
    cases hx : isSwitch (w, m) with
    | true => rfl
    | false =>
      rw [hx, if_neg Bool.false_ne_true, List.pairwise_append] at hk
      obtain ⟨hbefore, -, hle⟩ := hk
      have hsum := ih hbefore
      unfold deltas at hsum
      rw [if_neg Bool.false_ne_true, if_neg Bool.false_ne_true, List.sum_append, hsum]
      cases hs : sampled (w, m) with
      | none => rfl
      | some s =>
        have hp : previous k past ≤ s.counter k := by
          refine previous_le fun n hn => hle n hn _ ?_
          rw [hs]
          exact List.mem_singleton.2 rfl
        show previous k past + (w.grown k s + 0) = s.counter k
        rw [Nat.add_zero, grown, run_last before]
        exact Nat.add_sub_cancel' hp

/-- Whatever the files hold and the receiver answers: a collection that cannot take its sample
answers with a fault, makes no call and changes nothing, so all of these can be left out of a
history. Every other collection sets the gauges to what it has read, the limit of open files only if
its first row has a number, and adds to the six counters by how much they have grown since the last
sample of the same process, all in one order; it remembers the counters, and it answers with a fault
exactly if the receiver did to some call. As long as a counter does not go back, what was added to it
since the collector turned to the process sums to its last value. -/
theorem collecting (h : Run (step deliver) (start world) past w) :
    w.heard = past.flatMap reported ∧
    Run (step deliver) (start world) (past.filter fun x => !isLost x) w ∧
    (∀ before t files future, past = before ++ (t, .collect files) :: future →
      (files.status? = none ∨ files.limits? = none ∨ files.stat? = none ∨
          files.descriptors.toOption = none → ∃ f, t.collect deliver files = (.error f, t)) ∧
      ∀ s, files.sample? = some s →
        (t.collect deliver files).2.heard = t.heard ++ (s.levels.map t.collector.setting ++
          Totals.Kind.all.map fun k =>
            t.collector.adding k (s.counter k - previous k before)).map Call.event ∧
        (∀ k, t.grown k s = s.counter k - previous k before) ∧
        ((t.collect deliver files).1 = .ok () ↔ ∀ o ∈ t.answers deliver s, o = .ok ()) ∧
        ∀ k, (t.collect deliver files).2.collector.last.get k = s.counter k) ∧
    ∀ k, (readings k past).Pairwise (· ≤ ·) → (deltas k past).sum = previous k past := by
  have hfilter : Run (step deliver) (start world) (past.filter fun x => !isLost x) w :=
    h.filter fun hs hl => step_lost hs (by rw [← Bool.not_eq_false', hl])
  refine ⟨run_heard h, hfilter, fun before t files future hp => ⟨fun hn => ?_, fun s hs => ?_⟩,
    run_deltas h⟩
  · exact t.collect_lost deliver (ProcessFiles.sample?_eq_none.2 hn)
  · have hg (k : Totals.Kind) : t.grown k s = s.counter k - previous k before := by
      rw [grown, run_last (h.before hp)]
    have hr : sampled (t, .collect files) = some s := hs
    have hc := t.collect_sampled deliver hs
    refine ⟨?_, hg, t.collect_ok_iff deliver hs, fun k => ?_⟩
    · simp only [← hg]
      rw [hc, after, ← reported_sampled hr, reported, hr]
    · rw [hc]
      exact s.get_totals k

/-- A process early and late, and a moment at which it has no table of limits. -/
def early : ProcessFiles where
  status := .ok "Threads:\t3\nvoluntary_ctxt_switches:\t4\n"
  limits := .ok "Limit  Soft Limit  Hard Limit  Units\nMax open files  64  128  files\n"
  stat := .ok "7 (sh) S 1 7 7 0 -1 0 5 0 1 0 20 10 0 0 20 0 3"
  descriptors := .ok 3

def late : ProcessFiles :=
  { early with
    limits := .ok "Limit  Soft Limit  Hard Limit  Units\nMax open files  unlimited  128  files\n"
    stat := .ok "7 (sh) S 1 7 7 0 -1 0 9 0 1 0 50 10 0 0 20 0 3" }

def torn : ProcessFiles := { early with limits := .error (.system .noEntry) }

/-- A receiver that fails its second call. -/
def grudging : Watch Recorder := .start (.ofAnswers [none, some (.io (.bare .brokenPipe))])

def history : Option (List (Watch Recorder × Move) × Watch Recorder) :=
  Run.follow (step Recorder.answer) grudging
    [.withDir "7", .collect early, .collect torn, .withTicks 50, .collect late]

theorem collecting_torn : ∃ past w, Run (step Recorder.answer) grudging past w ∧
    w.heard.length = 21 ∧ deltas .minorFaults past = [5, 4] ∧
    (deltas .minorFaults past).sum = previous .minorFaults past ∧
    (Totals.Kind.all.map fun k => previous k past) = [50, 10, 4, 0, 9, 1] ∧
    w.heard = past.flatMap reported ∧
    Run (step Recorder.answer) grudging (past.filter fun x => !isLost x) w := by
  have hvalues : history.map (fun run => (run.2.heard.length, deltas .minorFaults run.1,
      readings .minorFaults run.1, Totals.Kind.all.map fun k => previous k run.1)) =
      some (21, [5, 4], [5, 9], [50, 10, 4, 0, 9, 1]) := by
    decide +kernel
  obtain ⟨⟨past, w⟩, hr, hv⟩ := Option.map_eq_some_iff.1 hvalues
  have h := Run.of_follow hr
  obtain ⟨hheard, hfilter, -, hsum⟩ := collecting h
  have hread : readings .minorFaults past = [5, 9] := congrArg (·.2.2.1) hv
  have hk : (readings .minorFaults past).Pairwise (· ≤ ·) := by
    rw [hread]
    decide
  exact ⟨past, w, h, congrArg (·.1) hv, congrArg (·.2.1) hv, hsum _ hk, congrArg (·.2.2.2) hv,
    hheard, hfilter⟩

end Watch
end Telemetry
