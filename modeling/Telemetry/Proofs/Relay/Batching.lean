import Telemetry.Proofs.Relay.Delivery
/-!
How many bytes wait for a flush.

When an event's bytes make the gathered ones enough for a flush, they are not flushed with them but
left behind, however many they are. So the flush size is no bound on what is pending. What every
change keeps, until a flush fails, is that fewer bytes than the flush size are pending, or the bytes
of a single event.
-/

namespace Telemetry

def Encoded.isDone : Encoded → Bool
  | .done _ => true
  | _ => false

/-- An event that the encoder refuses leaves no bytes. -/
def Codec.Clean (codec : Codec) : Prop :=
  ∀ e bytes cause, codec e = .failed bytes cause → bytes = []

theorem Statsd.clean_codec (s : Statsd) : Codec.Clean s.codec := by
  intro e bytes cause h
  unfold codec at h
  split at h
  · exact nomatch h
  · cases h
    rfl

theorem Codec.Clean.bytes_eq_nil {codec : Codec} (h : Codec.Clean codec) {e : Event}
    (he : (codec e).isDone = false) : (codec e).bytes = [] := by
  cases hc : codec e with
  | done bytes =>
      rw [hc] at he
      exact nomatch he
  | failed bytes cause => exact h e bytes cause hc
  | crashed => rfl

/-- What is pending once the bytes of an event were gathered behind those that were pending before,
without an error. -/
inductive Batch (size : Nat) (before bytes : Bytes) : Bytes → Prop where
  | few (h : (before ++ bytes).length < size) : Batch size before bytes (before ++ bytes)
  | deferred (h : size ≤ (before ++ bytes).length) (behind : before ≠ []) :
      Batch size before bytes bytes
  | whole (h : size ≤ bytes.length) (alone : before = []) : Batch size before bytes []

theorem Batch.length_lt_or {size : Nat} {before bytes after : Bytes}
    (h : Batch size before bytes after) (hs : 0 < size) :
    after.length < size ∨ after = bytes ∧ before ≠ [] := by
  cases h with
  | few h => exact .inl h
  | deferred h behind => exact .inr ⟨rfl, behind⟩
  | whole h alone => exact .inl hs

theorem Batch.eq_nil {size : Nat} {bytes after : Bytes} (h : Batch size [] bytes after)
    (hb : size ≤ bytes.length) : after = [] := by
  cases h with
  | few h => exact absurd h (Nat.not_lt_of_le hb)
  | deferred h behind => exact absurd rfl behind
  | whole h alone => rfl

namespace Transmitter

/-- What a flush of the first `n` bytes over a connection leaves, unless it takes the worker
down. -/
structure Drains (t : Transmitter) (n : Nat) (r : Verdict × Transmitter) : Prop where
  size : r.2.flushSize = t.flushSize
  done : r.1 = .done → r.2.pending = t.pending.drop n
  failed : ∀ f, r.1 = .failed f → f.writeLength? ≠ none

/-- What the bytes of an encoded event leave pending. A failure that is not one of a flush is the
encoder's. -/
structure Gathers (t : Transmitter) (encoded : Encoded) (r : Verdict × Transmitter) : Prop where
  size : r.2.flushSize = t.flushSize
  done : r.1 = .done → ∃ bytes, encoded = .done bytes ∧
    Batch t.flushSize t.pending bytes r.2.pending
  failed : ∀ f, r.1 = .failed f → f.writeLength? = none →
    ∃ bytes cause, encoded = .failed bytes cause ∧ r.2.pending = t.pending ++ bytes

theorem drains_flush {t : Transmitter} {s : Sink} (h : t.connection = some s) (n : Nat) :
    t.Drains n (t.flush n) := by
  have ho := t.flush_outcome n
  generalize t.flush n = r at ho ⊢
  cases ho with
  | idle hi =>
      rcases hi with hn | hn
      · exact nomatch h.symm.trans hn
      · exact ⟨rfl, fun _ => by rw [hn, List.drop_zero], nofun⟩
  | late => exact ⟨rfl, nofun, nofun⟩
  | flushed => exact ⟨rfl, fun _ => rfl, nofun⟩
  | failed =>
      refine ⟨rfl, nofun, fun f hf => ?_⟩
      cases hf
      exact nofun

theorem gathers_write {t : Transmitter} {s : Sink} (h : t.connection = some s) (name : String)
    (encoded : Encoded) : t.Gathers encoded (t.write name encoded) := by
  cases encoded with
  | crashed => exact ⟨rfl, nofun, nofun⟩
  | failed bytes cause => exact ⟨rfl, nofun, fun _ _ _ => ⟨bytes, cause, rfl, rfl⟩⟩
  | done bytes =>
      have hd := drains_flush (t := { t with pending := t.pending ++ bytes }) h
        (due t.pending.length (t.pending ++ bytes).length)
      unfold write
      dsimp only [Encoded.bytes]
      split
      · next hl => exact ⟨rfl, fun _ => ⟨bytes, rfl, .few hl⟩, nofun⟩
      · next hl =>
        have hl : t.flushSize ≤ (t.pending ++ bytes).length := Nat.le_of_not_lt hl
        refine ⟨hd.size, fun hv => ⟨bytes, rfl, ?_⟩, fun f hv hw => absurd hw (hd.failed f hv)⟩
        rw [hd.done hv]
        dsimp only
        -- The flush ends behind the event's bytes if nothing was pending, and else before them.
        cases hp : t.pending with
        | nil =>
            rw [hp] at hl
            have hn : due 0 ([] ++ bytes).length = ([] ++ bytes).length := rfl
            rw [List.length_nil, hn, List.drop_length]
            exact .whole hl rfl
        | cons b before =>
            rw [hp] at hl
            have hn : due (b :: before).length ((b :: before) ++ bytes).length =
              (b :: before).length := rfl
            rw [hn, List.drop_left]
            exact .deferred hl (List.cons_ne_nil b before)

end Transmitter

namespace Relay

/-- The events that the encoder took. -/
def written (codec : Codec) (encoded : List Event) : List Event :=
  encoded.filter fun e => (codec e).isDone

theorem flatten_chunks_written {codec : Codec} (h : Codec.Clean codec) (events : List Event) :
    (chunks codec (written codec events)).flatten = (chunks codec events).flatten := by
  induction events with
  | nil => rfl
  | cons e events ih =>
      have hc : (chunks codec (e :: events)).flatten =
        (codec e).bytes ++ (chunks codec events).flatten := rfl
      rw [hc, ← ih, written, List.filter_cons]
      split
      · rfl
      · next hd =>
        rw [h.bytes_eq_nil (Bool.eq_false_iff.2 hd)]
        rfl

/-- Writing an event, once there is a connection. -/
def writing (r : Relay) (e : Event) : Verdict × Transmitter :=
  { r with stage := .idle }.ensureConnected.transmitter.write e.metric.name
    ({ r with stage := .idle }.ensureConnected.codec e)

/-- Flushing everything, once there is a connection. -/
def flushing (r : Relay) : Verdict × Transmitter := r.ensureConnected.transmitter.flushAll

theorem flushed_eq (r : Relay) : r.flushed = r.ensureConnected.conclude r.flushing := rfl

theorem gathers_writing (r : Relay) (e : Event) :
    r.transmitter.Gathers (r.codec e) (r.writing e) := by
  obtain ⟨s, counters, clock, ht⟩ := transmitter_ensureConnected { r with stage := .idle }
  have hc := codec_eq (works_ensureConnected { r with stage := .idle }).terms
  unfold writing
  rw [ht, hc]
  have hg := Transmitter.gathers_write
    (t := { r.transmitter with connection := some s, counters, clock }) rfl e.metric.name
    (r.codec e)
  exact ⟨hg.size, hg.done, hg.failed⟩

theorem drains_flushing (r : Relay) :
    r.transmitter.Drains r.transmitter.pending.length r.flushing := by
  obtain ⟨s, counters, clock, ht⟩ := transmitter_ensureConnected r
  unfold flushing
  rw [ht]
  have hd := Transmitter.drains_flush
    (t := { r.transmitter with connection := some s, counters, clock }) rfl
    r.transmitter.pending.length
  exact ⟨hd.size, hd.done, hd.failed⟩

theorem pending_flushing {r : Relay} (h : r.flushing.1 = .done) : r.flushing.2.pending = [] := by
  rw [r.drains_flushing.done h, List.drop_length]

/-! ## What is kept -/

/-- Fewer bytes than the flush size, or those of a single event. -/
def Slim (size : Nat) (codec : Codec) (encoded : List Event) (pending : Bytes) : Prop :=
  pending.length < size ∨ ∃ e ∈ written codec encoded, pending = (codec e).bytes

/-- The flush size is kept, and little is pending as long as the worker is up and no flush
failed. -/
structure Batched (size : Nat) (encoded : List Event) (r : Relay) : Prop where
  flushSize : r.transmitter.flushSize = size
  slim : r.stage ≠ .crashed → r.failedLengths = [] →
    Slim size r.codec encoded r.transmitter.pending

theorem Slim.append {size : Nat} {codec : Codec} {encoded : List Event} {pending : Bytes}
    (h : Slim size codec encoded pending) (more : List Event) :
    Slim size codec (encoded ++ more) pending := by
  rcases h with hl | ⟨e, he, hp⟩
  · exact .inl hl
  · refine .inr ⟨e, ?_, hp⟩
    rw [written, List.filter_append]
    exact List.mem_append_left _ he

theorem Slim.length_lt {size longest : Nat} {codec : Codec} {encoded : List Event}
    {pending : Bytes} (h : Slim size codec encoded pending) (hs : 0 < size)
    (hl : ∀ e ∈ written codec encoded, (codec e).bytes.length ≤ longest) :
    pending.length < size + longest := by
  rcases h with hp | ⟨e, he, rfl⟩
  · exact Nat.lt_add_right longest hp
  · have hb := hl e he
    omega

theorem flushSize_conclude (r : Relay) (result : Verdict × Transmitter) :
    (r.conclude result).transmitter.flushSize = result.2.flushSize := by
  unfold conclude
  dsimp only
  split
  · rfl
  · rfl
  · rfl

/-- An operation that leaves the worker up, with no failed flush so far, was done, or a failure that
is not one of a flush ended it. -/
theorem conclude_calm {r : Relay} {result : Verdict × Transmitter}
    (hs : (r.conclude result).stage ≠ .crashed) (hl : (r.conclude result).failedLengths = []) :
    r.failedLengths = [] ∧ (r.conclude result).transmitter = result.2 ∧
      (result.1 = .done ∨ ∃ f, result.1 = .failed f ∧ f.writeLength? = none) := by
  rw [failedLengths_append (failures_conclude r result), List.append_eq_nil_iff] at hl
  refine ⟨hl.1, ?_⟩
  obtain ⟨verdict, t⟩ := result
  cases verdict with
  | done => exact ⟨rfl, .inl rfl⟩
  | failed f =>
      have hf := List.filterMap_eq_nil_iff.1 hl.2 f (List.mem_singleton.2 rfl)
      exact ⟨rfl, .inr ⟨f, rfl, hf⟩⟩
  | crashed => exact absurd rfl hs

theorem failedLengths_schedule (r : Relay) : r.schedule.failedLengths = r.failedLengths :=
  congrArg (List.filterMap Failure.writeLength?) (failures_schedule r)

theorem failedLengths_retire (r : Relay) : r.retire.failedLengths = r.failedLengths :=
  failedLengths_discardRest r

theorem transmitter_conclude {r : Relay} {result : Verdict × Transmitter} (h : result.1 = .done) :
    (r.conclude result).transmitter = result.2 := by
  unfold conclude
  rw [h]

theorem transmitter_handle {r r' : Relay} {e : Event} (holding : r.stage = .holding e)
    (handled : r.handle? = some r') (hv : (r.writing e).1 = .done) :
    r'.transmitter = (r.writing e).2 := by
  rw [handle?_holding holding] at handled
  cases handled
  exact transmitter_conclude hv

theorem pending_flushDue {r : Relay} (hv : r.flushing.1 = .done) :
    r.flushDue.transmitter.pending = [] := by
  have hf : r.flushed.transmitter.pending = [] := by
    rw [flushed_eq, transmitter_conclude hv, pending_flushing hv]
  rw [flushDue_eq]
  split
  · rw [pending_schedule, hf]
  · exact hf

theorem pending_tick {r r' : Relay} (ticked : r.tick? = some r') (hv : r.flushing.1 = .done) :
    r'.transmitter.pending = [] := by
  obtain ⟨-, -, -, -, rfl⟩ := tick?_eq_some ticked
  exact pending_flushDue hv

namespace Batched

variable {size : Nat} {encoded : List Event} {r r' : Relay}

/-- A change that moves no bytes. -/
theorem same (h : Batched size encoded r) (hc : r'.codec = r.codec)
    (hs : r'.transmitter.flushSize = r.transmitter.flushSize)
    (hp : r'.transmitter.pending = r.transmitter.pending)
    (hl : r'.failedLengths = r.failedLengths) (hu : r.stage = .crashed → r'.stage = .crashed) :
    Batched size encoded r' where
  flushSize := hs.trans h.flushSize
  slim := fun hs hn => by
    rw [hc, hp]
    exact h.slim (fun hc => hs (hu hc)) (hl.symm.trans hn)

theorem schedule (h : Batched size encoded r) : Batched size encoded r.schedule := by
  have hl := failedLengths_schedule r
  unfold Relay.schedule at hl ⊢
  dsimp only at hl ⊢
  split at hl
  · exact h.same rfl rfl rfl hl fun _ => rfl
  · exact h.same rfl rfl rfl hl id

theorem flushed (h : Batched size encoded r) (hs : 0 < size) : Batched size encoded r.flushed where
  flushSize :=
    (flushSize_conclude _ _).trans (r.drains_flushing.size.trans h.flushSize)
  slim := fun hu hn => by
    rw [flushed_eq] at hu hn ⊢
    obtain ⟨-, ht, hv⟩ := conclude_calm hu hn
    rcases hv with hv | ⟨f, hv, hw⟩
    · rw [ht, pending_flushing hv]
      exact .inl hs
    · exact absurd hw (r.drains_flushing.failed f hv)

theorem flushDue (h : Batched size encoded r) (hs : 0 < size) :
    Batched size encoded r.flushDue := by
  rw [flushDue_eq]
  split
  · exact (h.flushed hs).schedule
  · exact h.flushed hs

theorem finalFlush (h : Batched size encoded r) (hs : 0 < size) :
    Batched size encoded r.finalFlush := by
  unfold Relay.finalFlush
  split
  · exact h
  · exact h.flushed hs

theorem windUp (h : Batched size encoded r) (hs : 0 < size) (hi : r.stage = .idle) :
    Batched size encoded r.windUp := by
  have hf := h.finalFlush hs
  rcases windUp_cases hi with ⟨-, hw⟩ | ⟨hk, hw⟩
  · rw [hw]
    exact hf
  · have ht := transmitter_discardRest r.finalFlush
    rw [hw]
    refine hf.same (codec_eq (keeps_retire _).terms) ?_ ?_ (failedLengths_retire _) fun hc =>
      nomatch hk.symm.trans hc
    · exact congrArg (·.flushSize) ht
    · exact congrArg (·.pending) ht

/-- An event is encoded. An encoder that refuses it appends nothing. -/
theorem handle {e : Event} (h : Batched size encoded r) (hs : 0 < size)
    (hq : Codec.Clean r.codec)
    (holding : r.stage = .holding e) (handled : r.handle? = some r') :
    Batched size (encoded ++ [e]) r' := by
  have hc : r'.codec = r.codec := codec_eq (works_handle holding handled).terms
  have hg := r.gathers_writing e
  have hr : r' = { r with stage := .idle }.ensureConnected.conclude (r.writing e) :=
    Option.some.inj (handled.symm.trans (handle?_holding holding))
  constructor
  · rw [hr, flushSize_conclude, hg.size, h.flushSize]
  · intro hu hn
    rw [hc]
    rw [hr] at hu hn ⊢
    obtain ⟨hl, ht, hv⟩ := conclude_calm hu hn
    rw [ht]
    rcases hv with hv | ⟨f, hv, hw⟩
    · obtain ⟨bytes, he, hb⟩ := hg.done hv
      rw [h.flushSize] at hb
      rcases hb.length_lt_or hs with hb | ⟨hb, -⟩
      · exact .inl hb
      · have hm : e ∈ written r.codec (encoded ++ [e]) := by
          simp [written, he, Encoded.isDone]
        exact .inr ⟨e, hm, by rw [hb, he, Encoded.bytes]⟩
    · obtain ⟨bytes, cause, he, hp⟩ := hg.failed f hv hw
      rw [hp, hq e bytes cause he, List.append_nil]
      have hl' : r.failedLengths = [] :=
        (failedLengths_ensureConnected { r with stage := .idle }).symm.trans hl
      exact (h.slim (fun hc => nomatch holding.symm.trans hc) hl').append [e]

theorem change {offered' accepted' encoded' : List Event} (h : Batched size encoded r)
    (hs : 0 < size) (hq : Codec.Clean r.codec)
    (c : Change r offered' accepted' encoded' r') : Batched size (encoded ++ encoded') r' := by
  have keep {r' : Relay} (k : Batched size encoded r') : Batched size (encoded ++ []) r' := by
    rw [List.append_nil]
    exact k
  cases c with
  | handle e holding handled => exact h.handle hs hq holding handled
  | schedule idle => exact keep h.schedule
  | flush idle => exact keep (h.flushDue hs)
  | windUp idle drained => exact keep (h.windUp hs idle)
  | refuseFull e => exact keep (h.same rfl rfl rfl (failedLengths_refuseFull r e) id)
  | refuseClosed e => exact keep (h.same rfl rfl rfl (failedLengths_refuseClosed r e) id)
  | stay => exact keep h
  | accept => exact keep (h.same rfl rfl rfl rfl id)
  | close => exact keep (h.same rfl rfl rfl rfl id)
  | take e queue idle =>
      have hi : r.stage ≠ .crashed := by simp [idle]
      exact keep (h.same rfl rfl rfl rfl fun hc => absurd hc hi)
  | wait => exact keep (h.same rfl rfl rfl rfl id)

end Batched

/-! ## Whole runs -/

variable {s : Settings} {reactions : List Reaction} {answers : List DialAnswer} {clock : Clock}
  {past : List (Relay × Move)} {r : Relay}

theorem run_codec (h : Run step (start s reactions answers clock) past r) : r.codec = s.codec :=
  congrArg (·.1) (run_terms h)

theorem run_batched (hs : 0 < s.bufferSize) (hq : Codec.Clean s.codec)
    (h : Run step (start s reactions answers clock) past r) :
    Batched s.bufferSize (past.flatMap encoded) r := by
  have hu : Batched s.bufferSize [] (unscheduled s reactions answers clock) :=
    ⟨rfl, fun _ _ => .inl hs⟩
  have hb := run_invariant
    (P := fun _ _ encoded r => r.codec = s.codec ∧ Batched s.bufferSize encoded r)
    ⟨codec_eq (works_start s reactions answers clock).terms, hu.schedule⟩
    (fun hk c => ⟨(codec_eq c.terms).trans hk.1, hk.2.change hs (hk.1 ▸ hq) c⟩) h
  exact hb.2

/-- What is pending are the bytes of the last events that the encoder took. -/
theorem Shipped.pending {encoded : List Event} (h : Shipped encoded r)
    (hq : Codec.Clean r.codec) :
    ∃ rest, rest <:+ written r.codec encoded ∧
      r.transmitter.pending = (chunks r.codec rest).flatten := by
  obtain ⟨rest, hl⟩ := h
  obtain ⟨events, hs, rfl⟩ := List.suffix_map_iff.1 hl.carried.suffix
  have hp := flatten_chunks_written hq events
  exact ⟨written r.codec events, hs.filter _, hl.pending.trans hp.symm⟩

/-- At any time the bytes of the last events that the encoder took are pending. An event that is
written without an error leaves fewer bytes than the flush size, or its own ones if there were
others before them; if its own are enough and there were no others, nothing is left. A flush that
comes due leaves nothing if there is no error. So until a flush fails, less is pending than the
flush size and the longest encoding of an event together. A worker that has gone down has no bytes
to bound. -/
theorem batching (hs : 0 < s.bufferSize) (hq : Codec.Clean s.codec)
    (h : Run step (start s reactions answers clock) past r) :
    (∃ rest, rest <:+ written s.codec (past.flatMap encoded) ∧
      r.transmitter.pending = (chunks s.codec rest).flatten) ∧
    (∀ e r', r.stage = .holding e → r.step .handle = some r' → (r.writing e).1 = .done →
      ∃ bytes, s.codec e = .done bytes ∧
        Batch s.bufferSize r.transmitter.pending bytes r'.transmitter.pending ∧
        (r'.transmitter.pending.length < s.bufferSize ∨
          r'.transmitter.pending = bytes ∧ r.transmitter.pending ≠ []) ∧
        (r.transmitter.pending = [] → s.bufferSize ≤ bytes.length →
          r'.transmitter.pending = [])) ∧
    (∀ r', r.step .tick = some r' → r.flushing.1 = .done → r'.transmitter.pending = []) ∧
    (r.stage ≠ .crashed → r.failedLengths = [] → ∀ longest,
      (∀ e ∈ written s.codec (past.flatMap encoded), (s.codec e).bytes.length ≤ longest) →
      r.transmitter.pending.length < s.bufferSize + longest) := by
  have hc := run_codec h
  have hb := run_batched hs hq h
  have hp := (run_shipped h).pending (hc ▸ hq)
  have hslim := hb.slim
  rw [hc] at hp hslim
  refine ⟨hp, fun e r' holding handled hv => ?_, fun r' ticked hv => ?_,
    fun hu hn longest hl => (hslim hu hn).length_lt hs hl⟩
  · obtain ⟨bytes, he, hg⟩ := (r.gathers_writing e).done hv
    rw [hc] at he
    rw [hb.flushSize] at hg
    have hr : r'.transmitter = (r.writing e).2 := transmitter_handle holding handled hv
    rw [← hr] at hg
    exact ⟨bytes, he, hg, hg.length_lt_or hs, fun hn hw => (hn ▸ hg).eq_nil hw⟩
  · exact pending_tick ticked hv

def named (name : String) : Event := ⟨⟨name, "", .empty⟩, .set .zero⟩

def lines : Settings :=
  { (Settings.ofTarget (Statsd.codec ⟨""⟩) "udp" "localhost").withDefaults with bufferSize := 8 }

def overflow : Option (List (Relay × Move) × Relay) :=
  Run.follow step (start lines [] [] ⟨0, []⟩)
    [.submit (named "a"), .submit (named "abcdef"), .take, .handle, .take, .handle]

/-- The last line is pending, which alone is longer than the flush size. -/
theorem batching_overflow : ∃ past r,
    Run step (start lines [] [] ⟨0, []⟩) past r ∧ 0 < lines.bufferSize ∧
    Codec.Clean lines.codec ∧ r.transmitter.pending = Bytes.ofText "abcdef:0|g\n" ∧
    r.failedLengths = [] ∧
    ∃ rest, rest <:+ written lines.codec (past.flatMap encoded) ∧
      r.transmitter.pending = (chunks lines.codec rest).flatten := by
  have hleft : overflow.map (fun run => (run.2.transmitter.pending, run.2.failedLengths)) =
      some (Bytes.ofText "abcdef:0|g\n", []) := by decide +kernel
  obtain ⟨⟨past, r⟩, hr, hl⟩ := Option.map_eq_some_iff.1 hleft
  have h := Run.of_follow hr
  have hs : 0 < lines.bufferSize := by decide
  have hq : Codec.Clean lines.codec := Statsd.clean_codec ⟨""⟩
  obtain ⟨hp, -, -, -⟩ := batching hs hq h
  exact ⟨past, r, h, hs, hq, congrArg (·.1) hl, congrArg (·.2) hl, hp⟩

end Relay
end Telemetry
