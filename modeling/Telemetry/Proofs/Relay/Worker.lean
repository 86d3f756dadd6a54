import Telemetry.Proofs.Relay.Flush
import Telemetry.Relay.Moves
/-!
What the worker's operations leave alone.

The worker dials, writes, flushes and chooses the next moment for a flush. None of this admits an
event to the queue or turns one away, opens the entrance, or changes what the relay was set up with.
The queue stays as it is unless the worker goes down, and the worker goes down only through its
encoder or because no clock can show a moment that it needs.
-/

namespace Telemetry

namespace Failure

inductive Kind where
  | queueFull
  | queueClosed
  | dial
  | encode
  | write
  | discard
  | other
  deriving DecidableEq

def kind : Failure → Kind
  | .queueFull _ => .queueFull
  | .queueClosed _ => .queueClosed
  | .dial _ _ _ => .dial
  | .encode _ _ => .encode
  | .write _ _ => .write
  | .discard _ _ => .discard
  | .io _ => .other
  | .several _ => .other

/-- The worker reports the failure on its way, and not only at its end. -/
def IsWork (f : Failure) : Prop := f.kind = .dial ∨ f.kind = .encode ∨ f.kind = .write

theorem isDropped_of_isWork {f : Failure} (h : f.IsWork) : f.isDropped = false := by
  cases f <;> simp_all [IsWork, kind, isDropped]

theorem kind_of_isWork {f : Failure} (h : f.IsWork) : f.kind ≠ .discard := by
  cases f <;> simp_all [IsWork, kind]

end Failure

theorem Moment.after?_eq_none {m : Moment} {d : Duration} :
    Moment.after? m d = none ↔ Moment.horizon ≤ m + d.nanos := by
  unfold Moment.after?
  split <;> simp_all

/-- The counts of the events that were offered to the relay. -/
def Counters.admissions (c : Counters) : UInt64 × UInt64 × UInt64 :=
  (c.queued, c.queueFull, c.queueClosed)

namespace Relay

/-- What a relay is set up with, as far as it never changes. -/
def terms (r : Relay) : Codec × Nat × Duration × Duration :=
  (r.codec, r.capacity, r.flushInterval, r.transmitter.timeout)

/-- No clock can show the moment of the next flush, or that of a flush's deadline. -/
def Late (r : Relay) : Prop :=
  Moment.horizon ≤ r.clock.now + max r.flushInterval.nanos r.transmitter.timeout.nanos

/-- What may have taken the worker down. -/
def Fatal (r : Relay) : Prop := (∃ e, r.codec e = .crashed) ∨ r.Late

/-- What an operation of the worker changes at most. -/
structure Works (r r' : Relay) : Prop where
  terms : r'.terms = r.terms
  admissions : r'.transmitter.counters.admissions = r.transmitter.counters.admissions
  reports : ∃ fs, r'.failures = r.failures ++ fs ∧ ∀ f ∈ fs, f.IsWork
  queue : r'.stage = r.stage ∧ r'.queue = r.queue ∨
    r'.stage = .crashed ∧ r'.queue = [] ∧ r'.Fatal
  isOpen : r'.isOpen = true → r.isOpen = true
  time : r.clock.now ≤ r'.clock.now

theorem codec_eq {r r' : Relay} (h : r'.terms = r.terms) : r'.codec = r.codec :=
  congrArg (·.1) h

theorem capacity_eq {r r' : Relay} (h : r'.terms = r.terms) : r'.capacity = r.capacity :=
  congrArg (·.2.1) h

theorem flushInterval_eq {r r' : Relay} (h : r'.terms = r.terms) :
    r'.flushInterval = r.flushInterval :=
  congrArg (·.2.2.1) h

theorem timeout_eq {r r' : Relay} (h : r'.terms = r.terms) :
    r'.transmitter.timeout = r.transmitter.timeout :=
  congrArg (·.2.2.2) h

theorem Late.mono {r r' : Relay} (h : r.Late) (ht : r'.terms = r.terms)
    (hc : r.clock.now ≤ r'.clock.now) : r'.Late := by
  unfold Late
  rw [flushInterval_eq ht, timeout_eq ht]
  exact Nat.le_trans h (Nat.add_le_add_right hc _)

theorem Fatal.mono {r r' : Relay} (h : r.Fatal) (ht : r'.terms = r.terms)
    (hc : r.clock.now ≤ r'.clock.now) : r'.Fatal := by
  rcases h with ⟨e, he⟩ | h
  · exact .inl ⟨e, by rw [codec_eq ht]; exact he⟩
  · exact .inr (h.mono ht hc)

theorem isServing_ended {r : Relay} (h : r.stage = .ended) : r.isServing = false := by
  unfold isServing
  rw [h]

theorem isServing_crashed {r : Relay} (h : r.stage = .crashed) : r.isServing = false := by
  unfold isServing
  rw [h]

theorem isServing_idle {r : Relay} (h : r.stage = .idle) : r.isServing = true := by
  unfold isServing
  rw [h]

theorem isServing_holding {r : Relay} {e : Event} (h : r.stage = .holding e) :
    r.isServing = true := by
  unfold isServing
  rw [h]

theorem isServing_congr {r r' : Relay} (h : r'.stage = r.stage) : r'.isServing = r.isServing := by
  unfold isServing
  rw [h]

namespace Works

theorem quiet {r r' : Relay} (ht : r'.terms = r.terms)
    (ha : r'.transmitter.counters.admissions = r.transmitter.counters.admissions)
    (hf : r'.failures = r.failures)
    (hq : r'.stage = r.stage ∧ r'.queue = r.queue ∨
      r'.stage = .crashed ∧ r'.queue = [] ∧ r'.Fatal)
    (ho : r'.isOpen = r.isOpen) (hc : r.clock.now ≤ r'.clock.now) : Works r r' where
  terms := ht
  admissions := ha
  reports := ⟨[], by rw [hf, List.append_nil], nofun⟩
  queue := hq
  isOpen := fun h => ho.symm.trans h
  time := hc

theorem refl (r : Relay) : Works r r :=
  quiet rfl rfl rfl (.inl ⟨rfl, rfl⟩) rfl (Nat.le_refl _)

theorem trans {q r s : Relay} (h : Works q r) (k : Works r s) : Works q s where
  terms := k.terms.trans h.terms
  admissions := k.admissions.trans h.admissions
  reports := by
    obtain ⟨fs, hf, hw⟩ := h.reports
    obtain ⟨gs, hg, hv⟩ := k.reports
    refine ⟨fs ++ gs, by rw [hg, hf, List.append_assoc], fun f hm => ?_⟩
    rcases List.mem_append.1 hm with hm | hm
    · exact hw f hm
    · exact hv f hm
  queue := by
    rcases k.queue with ⟨hs, hq⟩ | hk
    · rcases h.queue with ⟨hs', hq'⟩ | ⟨hs', hq', hl⟩
      · exact .inl ⟨hs.trans hs', hq.trans hq'⟩
      · exact .inr ⟨hs.trans hs', hq.trans hq', hl.mono k.terms k.time⟩
    · exact .inr hk
  isOpen := h.isOpen ∘ k.isOpen
  time := Nat.le_trans h.time k.time

theorem isServing {r r' : Relay} (h : Works r r') (hs : r'.isServing = true) :
    r'.stage = r.stage ∧ r'.queue = r.queue := by
  rcases h.queue with hq | ⟨hc, -, -⟩
  · exact hq
  · exact absurd ((isServing_crashed hc).symm.trans hs) Bool.false_ne_true

end Works

/-! ## Dialing -/

/-- What dialing changes at most, and the connection after it. -/
structure Dialed (r : Relay) (connection : Option Sink) (established : UInt64) (r' : Relay) :
    Prop where
  terms : r'.terms = r.terms
  stage : r'.stage = r.stage
  queue : r'.queue = r.queue
  isOpen : r'.isOpen = true → r.isOpen = true
  time : r.clock.now ≤ r'.clock.now
  reports : ∃ fs, r'.failures = r.failures ++ fs ∧ ∀ f ∈ fs, f.kind = .dial
  transmitter : ∃ dialFailed clock, r'.transmitter =
    { r.transmitter with
      connection
      counters := { r.transmitter.counters with established, dialFailed }
      clock }

theorem Dialed.works {r r' : Relay} {c : Option Sink} {n : UInt64} (h : r.Dialed c n r') :
    Works r r' where
  terms := h.terms
  admissions := by
    obtain ⟨_, _, ht⟩ := h.transmitter
    rw [ht]
    rfl
  reports := by
    obtain ⟨fs, hf, hd⟩ := h.reports
    exact ⟨fs, hf, fun f hm => .inl (hd f hm)⟩
  queue := .inl ⟨h.stage, h.queue⟩
  isOpen := h.isOpen
  time := h.time

/-- The relay after a dial call that was refused, and the pause behind it. -/
def refused (r : Relay) (cause : IoError) (span : Duration) : Relay :=
  { r with
    dials := r.dials + 1
    transmitter := { r.transmitter with
      counters := r.transmitter.counters.addDialFailed
      clock := r.clock.pass span.nanos }
    reporter := r.reporter.report (.dial r.network r.address cause)
    isOpen := r.isOpen && !r.reporter.reaction.closes
    pauses := r.pauses ++ [span] }

def established (r : Relay) : Relay :=
  { r with
    dials := r.dials + 1
    transmitter := { r.transmitter with counters := r.transmitter.counters.addEstablished } }

theorem dialStep_refused (r : Relay) (cause : IoError) (span : Duration) :
    ((r.dialStep .dial).dialStep (.refused cause)).dialStep (.pause span) =
      r.refused cause span := by
  simp only [dialStep, count, report, setClock, clock, refused]

theorem dialStep_established (r : Relay) : (r.dialStep .dial).dialStep .established =
    r.established := by
  simp only [dialStep, count, established]

/-- What the steps of a cycle change at most. -/
theorem exists_dialSteps (r : Relay) (steps : List DialStep) :
    ∃ dials pauses transmitter reporter isOpen, steps.foldl dialStep r =
      { r with dials, pauses, transmitter, reporter, isOpen } := by
  induction steps generalizing r with
  | nil => exact ⟨_, _, _, _, _, rfl⟩
  | cons step steps ih =>
      obtain ⟨dials, pauses, transmitter, reporter, isOpen, h⟩ := ih (r.dialStep step)
      refine ⟨dials, pauses, transmitter, reporter, isOpen, ?_⟩
      rw [List.foldl_cons, h]
      cases step with
      | dial => rfl
      | refused cause => rfl
      | pause span => rfl
      | established => rfl

theorem dialed_established (r : Relay) : r.Dialed r.transmitter.connection
    (r.transmitter.counters.established + 1) r.established :=
  ⟨rfl, rfl, rfl, id, Nat.le_refl _, ⟨[], (List.append_nil _).symm, nofun⟩, _, _, rfl⟩

theorem Dialed.refused {r r' : Relay} {c : Option Sink} {n : UInt64} {cause : IoError}
    {span : Duration} (h : (r.refused cause span).Dialed c n r') : r.Dialed c n r' where
  terms := h.terms
  stage := h.stage
  queue := h.queue
  isOpen := fun ho => ((Bool.and_eq_true _ _).mp (h.isOpen ho)).1
  time := Nat.le_trans (Nat.le_add_right _ _) h.time
  reports := by
    obtain ⟨fs, hf, hd⟩ := h.reports
    refine ⟨.dial r.network r.address cause :: fs, ?_, fun f hm => ?_⟩
    · rw [hf]
      exact List.append_assoc r.failures [_] fs
    · rcases List.mem_cons.1 hm with rfl | hm
      · rfl
      · exact hd f hm
  transmitter := h.transmitter

theorem dialed_steps (b : Backoff) (answers : List DialAnswer) (r : Relay) :
    r.Dialed r.transmitter.connection (r.transmitter.counters.established + 1)
      ((b.connect answers).steps.foldl dialStep r) := by
  -- Each refusal is a round of its own, and the rest of the cycle starts from the relay behind it.
  induction answers generalizing b r with
  | nil =>
      show Dialed r _ _ ((r.dialStep .dial).dialStep .established)
      rw [dialStep_established]
      exact dialed_established r
  | cons answer answers ih =>
      cases answer with
      | accept s =>
          show Dialed r _ _ ((r.dialStep .dial).dialStep .established)
          rw [dialStep_established]
          exact dialed_established r
      | refuse cause =>
          have hs : (b.connect (.refuse cause :: answers)).steps = .dial :: .refused cause ::
              .pause b.next :: (b.advance.connect answers).steps := rfl
          rw [hs, List.foldl_cons, List.foldl_cons, List.foldl_cons, dialStep_refused]
          exact Dialed.refused (ih b.advance (r.refused cause b.next))

theorem past_connect (b : Backoff) (answers : List DialAnswer) :
    (b.connect answers).connection.past = [] := by
  induction answers generalizing b with
  | nil => rfl
  | cons answer answers ih =>
      cases answer with
      | accept s => rfl
      | refuse cause => exact ih b.advance

/-- Dialing ends with a connection that has not been called. -/
theorem dialed_connect {r : Relay} (h : r.transmitter.connection = none) :
    ∃ s : Sink, s.past = [] ∧
      r.Dialed (some s) (r.transmitter.counters.established + 1) r.connect := by
  refine ⟨(r.backoff.connect r.answers).connection, past_connect _ _, ?_⟩
  have hd := dialed_steps r.backoff r.answers r
  obtain ⟨dialFailed, clock, ht⟩ := hd.transmitter
  refine ⟨?_, hd.stage, hd.queue, hd.isOpen, hd.time, hd.reports, dialFailed, clock, ?_⟩
  · exact hd.terms
  · show Transmitter.connect _ _ = _
    rw [ht, h]
    simp only [Transmitter.connect, Transmitter.disconnect, Option.map_none, Option.toList_none,
      List.append_nil]

theorem ensureConnected_cases (r : Relay) :
    (∃ s, r.transmitter.connection = some s ∧ r.ensureConnected = r) ∨
      r.transmitter.connection = none ∧ ∃ s : Sink, s.past = [] ∧
        r.Dialed (some s) (r.transmitter.counters.established + 1) r.ensureConnected := by
  unfold ensureConnected
  cases h : r.transmitter.connection with
  | none => exact .inr ⟨rfl, dialed_connect h⟩
  | some s => exact .inl ⟨s, rfl, rfl⟩

theorem works_ensureConnected (r : Relay) : Works r r.ensureConnected := by
  rcases r.ensureConnected_cases with ⟨s, -, h⟩ | ⟨-, s, -, h⟩
  · rw [h]
    exact Works.refl r
  · exact h.works

theorem transmitter_ensureConnected (r : Relay) :
    ∃ s counters clock, r.ensureConnected.transmitter =
      { r.transmitter with connection := some s, counters, clock } := by
  rcases r.ensureConnected_cases with ⟨s, hs, h⟩ | ⟨-, s, -, h⟩
  · refine ⟨s, r.transmitter.counters, r.transmitter.clock, ?_⟩
    rw [h, ← hs]
  · obtain ⟨dialFailed, clock, ht⟩ := h.transmitter
    exact ⟨s, _, clock, ht⟩

theorem pending_ensureConnected (r : Relay) :
    r.ensureConnected.transmitter.pending = r.transmitter.pending := by
  obtain ⟨_, _, _, ht⟩ := transmitter_ensureConnected r
  rw [ht]

theorem stage_ensureConnected (r : Relay) : r.ensureConnected.stage = r.stage := by
  rcases r.ensureConnected_cases with ⟨s, -, h⟩ | ⟨-, s, -, h⟩
  · rw [h]
  · exact h.stage

end Relay

/-! ## Gathering and flushing -/

namespace Transmitter

/-- What an operation changes at most, and why it may take the worker down. -/
structure Operates (t : Transmitter) (fatal : Prop) (r : Verdict × Transmitter) : Prop where
  timeout : r.2.timeout = t.timeout
  admissions : r.2.counters.admissions = t.counters.admissions
  time : t.clock.now ≤ r.2.clock.now
  failed : ∀ f, r.1 = .failed f → f.IsWork
  crashed : r.1 = .crashed → fatal ∨ Moment.horizon ≤ r.2.clock.now + t.timeout.nanos

theorem operates_flush (t : Transmitter) (n : Nat) (fatal : Prop) :
    t.Operates fatal (t.flush n) := by
  have h := t.flush_outcome n
  generalize t.flush n = r at h
  cases h with
  | idle => exact ⟨rfl, rfl, Nat.le_refl _, nofun, nofun⟩
  | late clock hc ht hl =>
    exact ⟨rfl, rfl, ht, nofun, fun _ => .inr (Moment.after?_eq_none.1 hl)⟩
  | flushed s clock hc ht => exact ⟨rfl, rfl, ht, nofun, nofun⟩
  | failed s clock e hc ht =>
    refine ⟨rfl, rfl, ht, fun f hf => ?_, nofun⟩
    cases hf
    exact .inr (.inr rfl)

theorem operates_write (t : Transmitter) (name : String) (encoded : Encoded) :
    t.Operates (encoded = .crashed) (t.write name encoded) := by
  cases encoded with
  | crashed => exact ⟨rfl, rfl, Nat.le_refl _, nofun, fun _ => .inl rfl⟩
  | failed bytes cause =>
    refine ⟨rfl, rfl, Nat.le_refl _, fun f hf => ?_, nofun⟩
    cases hf
    exact .inr (.inl rfl)
  | done bytes =>
    unfold write
    dsimp only
    split
    · exact ⟨rfl, rfl, Nat.le_refl _, nofun, nofun⟩
    · have h := operates_flush { t with pending := t.pending ++ bytes }
        (due t.pending.length (t.pending ++ bytes).length) (Encoded.done bytes = .crashed)
      exact ⟨h.timeout, h.admissions, h.time, h.failed, h.crashed⟩

theorem due_pos {before after : Nat} (h : before ≤ after) : due before after ≠ 0 ↔ 0 < after := by
  unfold due
  split
  · exact Nat.pos_iff_ne_zero.symm
  · omega

/-- A flush over a connection is a crash if it has something to flush and no clock can show its
deadline, and in no other case. -/
theorem flush_crashed_iff {t : Transmitter} {s : Sink} {n : Nat} (h : t.connection = some s) :
    (t.flush n).1 = .crashed ↔
      n ≠ 0 ∧ Moment.horizon ≤ t.clock.read.now + t.timeout.nanos := by
  unfold flush
  rw [h, ← Moment.after?_eq_none]
  dsimp only
  split
  · next hn => exact ⟨nofun, fun hc => absurd hn hc.1⟩
  · next hn =>
    split
    · next hm => exact ⟨fun _ => ⟨hn, hm⟩, fun _ => rfl⟩
    · next deadline hm =>
      refine ⟨fun hc => ?_, fun hc => nomatch hm.symm.trans hc.2⟩
      split at hc
      · exact nomatch hc
      · exact nomatch hc

theorem write_crashed_iff {t : Transmitter} {s : Sink} {name : String} {encoded : Encoded}
    (h : t.connection = some s) :
    (t.write name encoded).1 = .crashed ↔
      encoded = .crashed ∨ ∃ bytes, encoded = .done bytes ∧
        t.flushSize ≤ (t.pending ++ bytes).length ∧ 0 < (t.pending ++ bytes).length ∧
        Moment.horizon ≤ t.clock.read.now + t.timeout.nanos := by
  cases encoded with
  | crashed => exact ⟨fun _ => .inl rfl, fun _ => rfl⟩
  | failed bytes cause =>
      refine ⟨nofun, fun hc => ?_⟩
      rcases hc with hc | ⟨_, hc, -⟩
      · exact nomatch hc
      · exact nomatch hc
  | done bytes =>
      have hle : t.pending.length ≤ (t.pending ++ bytes).length := by
        rw [List.length_append]
        exact Nat.le_add_right _ _
      unfold write
      dsimp only [Encoded.bytes]
      split
      · next hl =>
        refine ⟨nofun, fun hc => ?_⟩
        rcases hc with hc | ⟨_, hc, hs, -⟩
        · exact nomatch hc
        · cases hc
          exact absurd hl (Nat.not_lt_of_le hs)
      · next hl =>
        have hf := flush_crashed_iff (t := { t with pending := t.pending ++ bytes })
          (n := due t.pending.length (t.pending ++ bytes).length) h
        rw [due_pos hle] at hf
        rw [hf]
        refine ⟨fun hc => .inr ⟨bytes, rfl, Nat.le_of_not_lt hl, hc⟩, fun hc => ?_⟩
        rcases hc with hc | ⟨_, hc, -, hf⟩
        · exact nomatch hc
        · cases hc
          exact hf

end Transmitter

namespace Relay

/-- What the end of an operation changes at most. -/
theorem exists_conclude (r : Relay) (result : Verdict × Transmitter) :
    ∃ transmitter reporter isOpen stage queue, r.conclude result =
      { r with transmitter, reporter, isOpen, stage, queue } := by
  unfold conclude
  dsimp only
  split
  · exact ⟨_, _, _, _, _, rfl⟩
  · exact ⟨_, _, _, _, _, rfl⟩
  · exact ⟨_, _, _, _, _, rfl⟩

theorem pending_conclude (r : Relay) (result : Verdict × Transmitter) :
    (r.conclude result).transmitter.pending = result.2.pending := by
  unfold conclude
  dsimp only
  split
  · rfl
  · rfl
  · rfl

theorem works_conclude {r : Relay} {fatal : Prop} {result : Verdict × Transmitter}
    (h : r.transmitter.Operates fatal result) (hf : fatal → ∃ e, r.codec e = .crashed) :
    Works r (r.conclude result) := by
  have ht : terms { r with transmitter := result.2 } = r.terms := by
    show (_, _, _, result.2.timeout) = _
    rw [h.timeout]
    rfl
  unfold conclude
  dsimp only
  split
  · exact .quiet ht h.admissions rfl (.inl ⟨rfl, rfl⟩) rfl h.time
  · next f hv =>
    refine ⟨ht, h.admissions, ⟨[f], rfl, fun g hg => ?_⟩, .inl ⟨rfl, rfl⟩, ?_, h.time⟩
    · rw [List.mem_singleton.1 hg]
      exact h.failed f hv
    · intro ho
      exact ((Bool.and_eq_true _ _).mp ho).1
  · next hv =>
    refine .quiet ht h.admissions rfl (.inr ⟨rfl, rfl, ?_⟩) rfl h.time
    rcases h.crashed hv with hc | hl
    · exact .inl (hf hc)
    · refine .inr (Nat.le_trans hl (Nat.add_le_add_left ?_ _))
      show _ ≤ max r.flushInterval.nanos result.2.timeout.nanos
      rw [h.timeout]
      exact Nat.le_max_right _ _

theorem works_flushAll (r : Relay) : Works r (r.conclude r.transmitter.flushAll) :=
  works_conclude (Transmitter.operates_flush _ _ False) False.elim

theorem works_schedule (r : Relay) : Works r r.schedule := by
  have ht : r.clock.now ≤ r.clock.read.now := r.clock.le_read
  unfold schedule
  dsimp only
  split
  · next h =>
    have hl := Moment.after?_eq_none.1 h
    refine .quiet rfl rfl rfl (.inr ⟨rfl, rfl, .inr ?_⟩) rfl ht
    exact Nat.le_trans hl (Nat.add_le_add_left (Nat.le_max_left _ _) _)
  · exact .quiet rfl rfl rfl (.inl ⟨rfl, rfl⟩) rfl ht

theorem pending_schedule (r : Relay) : r.schedule.transmitter.pending = r.transmitter.pending := by
  unfold schedule
  dsimp only
  split
  · rfl
  · rfl

theorem handle?_holding {r : Relay} {e : Event} (h : r.stage = .holding e) :
    r.handle? = some
      (conclude { r with stage := .idle }.ensureConnected
        ({ r with stage := .idle }.ensureConnected.transmitter.write e.metric.name
          ({ r with stage := .idle }.ensureConnected.codec e))) := by
  unfold handle?
  rw [h]

theorem works_handle {r r' : Relay} {e : Event} (hs : r.stage = .holding e)
    (h : r.handle? = some r') : Works { r with stage := .idle } r' := by
  rw [handle?_holding hs] at h
  cases h
  refine (works_ensureConnected _).trans
    (works_conclude (Transmitter.operates_write _ _ _) fun hc => ⟨e, hc⟩)

/-- All that was gathered is flushed, and the moment of the next flush is still to be chosen. -/
def flushed (r : Relay) : Relay :=
  r.ensureConnected.conclude r.ensureConnected.transmitter.flushAll

theorem flushDue_eq (r : Relay) :
    r.flushDue = if r.flushed.isServing then r.flushed.schedule else r.flushed := rfl

theorem works_flushed (r : Relay) : Works r r.flushed :=
  (works_ensureConnected r).trans (works_flushAll r.ensureConnected)

theorem works_flushDue (r : Relay) : Works r r.flushDue := by
  rw [flushDue_eq]
  split
  · exact (works_flushed r).trans (works_schedule _)
  · exact works_flushed r

theorem works_finalFlush (r : Relay) : Works r r.finalFlush := by
  unfold finalFlush
  split
  · exact Works.refl r
  · exact works_flushed r

/-! ## What takes the worker down -/

/-- No clock can show the deadline of a flush that begins now. -/
def NoDeadline (r : Relay) : Prop :=
  Moment.horizon ≤ r.clock.read.now + r.transmitter.timeout.nanos

/-- No clock can show the moment of the next flush, if it is chosen now. -/
def NoNextFlush (r : Relay) : Prop := Moment.horizon ≤ r.clock.read.now + r.flushInterval.nanos

/-- Handling the event takes the worker down: the encoder crashes on it, or it makes the gathered
bytes enough for a flush, and that one cannot have a deadline once there is a connection. -/
def Topples (r : Relay) (e : Event) : Prop :=
  r.codec e = .crashed ∨ ∃ bytes, r.codec e = .done bytes ∧
    r.transmitter.flushSize ≤ (r.transmitter.pending ++ bytes).length ∧
    0 < (r.transmitter.pending ++ bytes).length ∧ { r with stage := .idle }.ensureConnected.NoDeadline

theorem conclude_crashed_iff {r : Relay} {result : Verdict × Transmitter} (h : r.stage = .idle) :
    (r.conclude result).stage = .crashed ↔ result.1 = .crashed := by
  obtain ⟨verdict, t⟩ := result
  have hr : r.stage ≠ .crashed := fun hc => nomatch h.symm.trans hc
  cases verdict with
  | done => exact ⟨fun hc => absurd hc hr, nofun⟩
  | failed f => exact ⟨fun hc => absurd hc hr, nofun⟩
  | crashed => exact ⟨fun _ => rfl, fun _ => rfl⟩

theorem handle_crashed_iff {r r' : Relay} {e : Event} (hs : r.stage = .holding e)
    (h : r.handle? = some r') : r'.stage = .crashed ↔ r.Topples e := by
  rw [handle?_holding hs] at h
  cases h
  have hi := stage_ensureConnected { r with stage := .idle }
  have hc := codec_eq (works_ensureConnected { r with stage := .idle }).terms
  obtain ⟨s, counters, later, ht⟩ := transmitter_ensureConnected { r with stage := .idle }
  have hs : { r with stage := .idle }.ensureConnected.transmitter.connection = some s := by rw [ht]
  rw [conclude_crashed_iff hi, Transmitter.write_crashed_iff hs, hc]
  unfold Topples NoDeadline Relay.clock
  rw [ht]

theorem schedule_crashed_iff {r : Relay} (h : r.stage = .idle) :
    r.schedule.stage = .crashed ↔ r.NoNextFlush := by
  rw [NoNextFlush, ← Moment.after?_eq_none]
  unfold schedule
  dsimp only
  split
  · next hm => exact ⟨fun _ => hm, fun _ => rfl⟩
  · next m hm =>
    exact ⟨fun hc => (nomatch h.symm.trans hc), fun hc => (nomatch hm.symm.trans hc)⟩

theorem flushed_crashed_iff {r : Relay} (h : r.stage = .idle) :
    r.flushed.stage = .crashed ↔
      r.transmitter.pending ≠ [] ∧ r.ensureConnected.NoDeadline := by
  have hi := (stage_ensureConnected r).trans h
  obtain ⟨s, counters, later, ht⟩ := transmitter_ensureConnected r
  have hs : r.ensureConnected.transmitter.connection = some s := by rw [ht]
  unfold flushed Transmitter.flushAll
  rw [conclude_crashed_iff hi, Transmitter.flush_crashed_iff hs, pending_ensureConnected, Ne,
    List.length_eq_zero_iff]
  rfl

theorem flushDue_crashed_iff {r : Relay} (h : r.stage = .idle) :
    r.flushDue.stage = .crashed ↔
      (r.transmitter.pending ≠ [] ∧ r.ensureConnected.NoDeadline) ∨ r.flushed.NoNextFlush := by
  rw [← flushed_crashed_iff h, flushDue_eq]
  rcases (works_flushed r).queue with ⟨hs, -⟩ | ⟨hc, -⟩
  · have hi := hs.trans h
    rw [if_pos (isServing_idle hi), schedule_crashed_iff hi]
    exact ⟨.inr, fun hl => hl.resolve_left fun hc => nomatch hi.symm.trans hc⟩
  · rw [if_neg (Bool.eq_false_iff.1 (isServing_crashed hc))]
    exact ⟨.inl, fun _ => hc⟩

theorem finalFlush_crashed_iff {r : Relay} (h : r.stage = .idle) :
    r.finalFlush.stage = .crashed ↔
      r.transmitter.pending ≠ [] ∧ r.ensureConnected.NoDeadline := by
  rw [← flushed_crashed_iff h]
  unfold finalFlush
  split
  · next hp =>
    have hf := flushed_crashed_iff h
    rw [List.isEmpty_iff] at hp
    exact ⟨fun hc => (nomatch h.symm.trans hc), fun hc => absurd hp (hf.1 hc).1⟩
  · exact Iff.rfl

/-! ## What a worker that was taken down leaves pending -/

end Relay

namespace Transmitter

/-- A flush that takes the worker down has moved nothing. -/
theorem pending_flush_crashed {t : Transmitter} {n : Nat} (h : (t.flush n).1 = .crashed) :
    (t.flush n).2.pending = t.pending := by
  have ho := t.flush_outcome n
  generalize t.flush n = r at h ho ⊢
  cases ho with
  | late => rfl
  | idle => exact nomatch h
  | flushed => exact nomatch h
  | failed => exact nomatch h

theorem pending_write_crashed {t : Transmitter} {name : String} {encoded : Encoded}
    (h : (t.write name encoded).1 = .crashed) :
    (t.write name encoded).2.pending = t.pending ++ encoded.bytes := by
  cases encoded with
  | crashed => exact (List.append_nil t.pending).symm
  | failed bytes cause => exact nomatch h
  | done bytes =>
    unfold write at h ⊢
    dsimp only at h ⊢
    split
    · rfl
    · next hl =>
      rw [if_neg hl] at h
      exact pending_flush_crashed h

end Transmitter

namespace Relay

theorem pending_handle_crashed {r r' : Relay} {e : Event} (hs : r.stage = .holding e)
    (h : r.handle? = some r') (hc : r'.stage = .crashed) :
    r'.transmitter.pending = r.transmitter.pending ++ (r.codec e).bytes := by
  rw [handle?_holding hs] at h
  cases h
  have hi := stage_ensureConnected { r with stage := .idle }
  have hp := pending_ensureConnected { r with stage := .idle }
  rw [conclude_crashed_iff hi] at hc
  rw [pending_conclude, Transmitter.pending_write_crashed hc, hp,
    codec_eq (works_ensureConnected { r with stage := .idle }).terms]

theorem pending_flushed_crashed {r : Relay} (h : r.stage = .idle)
    (hc : r.flushed.stage = .crashed) :
    r.flushed.transmitter.pending = r.transmitter.pending := by
  have hi := (stage_ensureConnected r).trans h
  unfold flushed at hc ⊢
  rw [conclude_crashed_iff hi] at hc
  rw [pending_conclude, Transmitter.flushAll, Transmitter.pending_flush_crashed hc,
    pending_ensureConnected]

/-! ## The worker's end -/

/-- What no operation of the worker changes, its end included. -/
structure Keeps (r r' : Relay) : Prop where
  terms : r'.terms = r.terms
  admissions : r'.transmitter.counters.admissions = r.transmitter.counters.admissions
  reports : ∃ fs, r'.failures = r.failures ++ fs ∧ ∀ f ∈ fs, f.isDropped = false
  isOpen : r'.isOpen = true → r.isOpen = true
  time : r.clock.now ≤ r'.clock.now

theorem Works.keeps {r r' : Relay} (h : Works r r') : Keeps r r' where
  terms := h.terms
  admissions := h.admissions
  reports := by
    obtain ⟨fs, hf, hw⟩ := h.reports
    exact ⟨fs, hf, fun f hm => Failure.isDropped_of_isWork (hw f hm)⟩
  isOpen := h.isOpen
  time := h.time

theorem Keeps.trans {q r s : Relay} (h : Keeps q r) (k : Keeps r s) : Keeps q s where
  terms := k.terms.trans h.terms
  admissions := k.admissions.trans h.admissions
  reports := by
    obtain ⟨fs, hf, hw⟩ := h.reports
    obtain ⟨gs, hg, hv⟩ := k.reports
    refine ⟨fs ++ gs, by rw [hg, hf, List.append_assoc], fun f hm => ?_⟩
    rcases List.mem_append.1 hm with hm | hm
    · exact hw f hm
    · exact hv f hm
  isOpen := h.isOpen ∘ k.isOpen
  time := Nat.le_trans h.time k.time

/-- Report what the last flush left, give the connection up and end. -/
def retire (r : Relay) : Relay :=
  { r.discardRest with stage := .ended, transmitter := r.discardRest.transmitter.disconnect }

theorem transmitter_discardRest (r : Relay) : r.discardRest.transmitter = r.transmitter := by
  unfold discardRest
  split
  · rfl
  · rfl

theorem queue_discardRest (r : Relay) : r.discardRest.queue = r.queue := by
  unfold discardRest
  split
  · rfl
  · rfl

theorem keeps_retire (r : Relay) : Keeps r r.retire := by
  unfold retire discardRest
  split
  · exact ⟨rfl, rfl, ⟨[], (List.append_nil _).symm, nofun⟩, id, Nat.le_refl _⟩
  · refine ⟨rfl, rfl, ⟨[_], rfl, fun f hf => ?_⟩, fun ho => ?_, Nat.le_refl _⟩
    · rw [List.mem_singleton.1 hf]
      rfl
    · exact ((Bool.and_eq_true _ _).mp ho).1

/-- The last flush takes the worker down, or the worker ends in good order. -/
theorem windUp_cases {r : Relay} (h : r.stage = .idle) :
    r.finalFlush.stage = .crashed ∧ r.windUp = r.finalFlush ∨
      r.finalFlush.stage = .idle ∧ r.windUp = r.finalFlush.retire := by
  rcases (works_finalFlush r).queue with ⟨hs, -⟩ | ⟨hs, -⟩
  · rw [h] at hs
    exact .inr ⟨hs, if_pos (isServing_idle hs)⟩
  · exact .inl ⟨hs, if_neg (Bool.eq_false_iff.1 (isServing_crashed hs))⟩

theorem keeps_windUp {r : Relay} (h : r.stage = .idle) : Keeps r r.windUp := by
  have hf := (works_finalFlush r).keeps
  rcases windUp_cases h with ⟨-, hw⟩ | ⟨-, hw⟩
  · rw [hw]
    exact hf
  · rw [hw]
    exact hf.trans (keeps_retire _)

end Relay
end Telemetry
