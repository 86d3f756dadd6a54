import Telemetry.Proofs.Relay.Ledger
import Telemetry.Proofs.Relay.Queue
/-!
What each connection of a relay receives.

The chunks of a relay are the bytes that its encoder appended for one event after the other, those
of an event that it refused included. The ledger of its transmitter is kept through every change,
and a new connection is made only where no other one is in use.
-/

namespace Telemetry
namespace Relay

/-- The chunks of these events. -/
def chunks (codec : Codec) (encoded : List Event) : List Bytes :=
  encoded.map fun e => (codec e).bytes

/-- The lengths of the flushes that were reported as failed, in order. -/
def failedLengths (r : Relay) : List Nat := r.failures.filterMap Failure.writeLength?

/-- The relay's books are right after these events were handed to its encoder. -/
def Shipped (encoded : List Event) (r : Relay) : Prop :=
  ∃ rest, Transmitter.Ledger (chunks r.codec encoded) r.failedLengths rest r.transmitter

theorem chunks_append (codec : Codec) (first later : List Event) :
    chunks codec (first ++ later) = chunks codec first ++ chunks codec later :=
  List.map_append

theorem failedLengths_append {r r' : Relay} {fs : List Failure}
    (h : r'.failures = r.failures ++ fs) :
    r'.failedLengths = r.failedLengths ++ fs.filterMap Failure.writeLength? := by
  unfold failedLengths
  rw [h, List.filterMap_append]

theorem failedLengths_same {r r' : Relay} {fs : List Failure}
    (h : r'.failures = r.failures ++ fs) (hf : ∀ f ∈ fs, f.writeLength? = none) :
    r'.failedLengths = r.failedLengths := by
  rw [failedLengths_append h, List.filterMap_eq_nil_iff.2 hf, List.append_nil]

theorem failedLengths_ensureConnected (r : Relay) :
    r.ensureConnected.failedLengths = r.failedLengths := by
  rcases r.ensureConnected_cases with ⟨s, -, he⟩ | ⟨-, s, -, hd⟩
  · rw [he]
  · obtain ⟨fs, hf, hk⟩ := hd.reports
    refine failedLengths_same hf fun f hm => ?_
    have hkind := hk f hm
    cases f <;> simp_all [Failure.kind, Failure.writeLength?]

theorem failedLengths_discardRest (r : Relay) :
    r.discardRest.failedLengths = r.failedLengths := by
  unfold discardRest
  split
  · rfl
  · have hf : ∀ f ∈ [Failure.discard r.transmitter.pending.length discardReason],
        f.writeLength? = none := by
      simp [Failure.writeLength?]
    exact failedLengths_same rfl hf

theorem failedLengths_refuseFull (r : Relay) (e : Event) :
    (r.refuseFull e).failedLengths = r.failedLengths :=
  failedLengths_same (refuses_refuseFull r e).failures (by simp [Failure.writeLength?])

theorem failedLengths_refuseClosed (r : Relay) (e : Event) :
    (r.refuseClosed e).failedLengths = r.failedLengths :=
  failedLengths_same (refuses_refuseClosed r e).failures (by simp [Failure.writeLength?])

namespace Shipped

variable {encoded : List Event} {r r' : Relay}

theorem congr (h : Shipped encoded r) (hc : r'.codec = r.codec)
    (hl : r'.failedLengths = r.failedLengths)
    (hp : r'.transmitter.pending = r.transmitter.pending)
    (hn : r'.transmitter.connection = r.transmitter.connection)
    (hr : r'.transmitter.retired = r.transmitter.retired)
    (hs : r'.transmitter.counters.sent = r.transmitter.counters.sent) : Shipped encoded r' := by
  obtain ⟨rest, hl'⟩ := h
  refine ⟨rest, ?_⟩
  rw [hc, hl]
  exact hl'.congr hp hn hr hs

theorem crash (h : Shipped encoded r) : Shipped encoded r.crash := by
  obtain ⟨rest, hl⟩ := h
  exact ⟨rest, hl.disconnect⟩

theorem ensureConnected (h : Shipped encoded r) : Shipped encoded r.ensureConnected := by
  rcases r.ensureConnected_cases with ⟨s, -, he⟩ | ⟨hn, s, hs, hd⟩
  · rw [he]
    exact h
  · obtain ⟨rest, hl⟩ := h
    obtain ⟨dialFailed, clock, ht⟩ := hd.transmitter
    refine ⟨rest, ?_⟩
    rw [codec_eq hd.terms, failedLengths_ensureConnected, ht]
    exact hl.opened hn hs rfl rfl rfl rfl rfl rfl

theorem codec_conclude (r : Relay) (result : Verdict × Transmitter) :
    (r.conclude result).codec = r.codec := by
  obtain ⟨_, _, _, _, _, h⟩ := r.exists_conclude result
  rw [h]

theorem conclude {result : Verdict × Transmitter}
    (h : ∃ rest, Transmitter.Ledger (chunks r.codec encoded)
      (r.failedLengths ++ result.1.failures.filterMap Failure.writeLength?) rest result.2) :
    Shipped encoded (r.conclude result) := by
  obtain ⟨rest, hl⟩ := h
  refine ⟨rest, ?_⟩
  rw [failedLengths_append (failures_conclude r result), codec_conclude]
  unfold Relay.conclude
  dsimp only
  split
  · exact hl
  · exact hl
  · exact hl.disconnect

theorem flushAll (h : Shipped encoded r) :
    Shipped encoded (r.conclude r.transmitter.flushAll) := by
  obtain ⟨rest, hl⟩ := h
  exact conclude hl.flushAll

theorem write (h : Shipped encoded r) (e : Event) :
    Shipped (encoded ++ [e])
      (r.conclude (r.transmitter.write e.metric.name (r.codec e))) := by
  obtain ⟨rest, hl⟩ := h
  have hw := hl.write e.metric.name (r.codec e)
  refine conclude ?_
  rw [chunks_append]
  exact hw

theorem handle {e : Event} (h : Shipped encoded r) (hs : r.stage = .holding e)
    (hr : r.handle? = some r') : Shipped (encoded ++ [e]) r' := by
  rw [handle?_holding hs] at hr
  cases hr
  have hi : Shipped encoded { r with stage := .idle } := h
  exact hi.ensureConnected.write e

theorem schedule (h : Shipped encoded r) : Shipped encoded r.schedule := by
  have hc : Shipped encoded (r.setClock r.clock.read) := h.congr rfl rfl rfl rfl rfl rfl
  unfold Relay.schedule
  dsimp only
  split
  · exact hc.crash
  · exact hc

theorem flushDue (h : Shipped encoded r) : Shipped encoded r.flushDue := by
  have hf := h.ensureConnected.flushAll
  unfold Relay.flushDue
  dsimp only
  split
  · exact hf.schedule
  · exact hf

theorem finalFlush (h : Shipped encoded r) : Shipped encoded r.finalFlush := by
  unfold Relay.finalFlush
  split
  · exact h
  · exact h.ensureConnected.flushAll

theorem retire (h : Shipped encoded r) : Shipped encoded r.retire := by
  have hl := failedLengths_discardRest r
  have hc : r.discardRest.codec = r.codec := by
    unfold discardRest
    split
    · rfl
    · rfl
  have ht := transmitter_discardRest r
  have hd : Shipped encoded r.discardRest :=
    h.congr hc hl (by rw [ht]) (by rw [ht]) (by rw [ht]) (by rw [ht])
  obtain ⟨rest, hk⟩ := hd
  exact ⟨rest, hk.disconnect⟩

theorem windUp (h : Shipped encoded r) (hs : r.stage = .idle) : Shipped encoded r.windUp := by
  rcases windUp_cases hs with ⟨-, hw⟩ | ⟨-, hw⟩
  · rw [hw]
    exact h.finalFlush
  · rw [hw]
    exact h.finalFlush.retire

theorem change {offered' accepted' encoded' : List Event} (h : Shipped encoded r)
    (c : Change r offered' accepted' encoded' r') : Shipped (encoded ++ encoded') r' := by
  have keep {r' : Relay} (k : Shipped encoded r') : Shipped (encoded ++ []) r' := by
    rw [List.append_nil]
    exact k
  cases c with
  | handle e holding handled => exact h.handle holding handled
  | schedule idle => exact keep h.schedule
  | flush idle => exact keep h.flushDue
  | windUp idle drained => exact keep (h.windUp idle)
  | refuseFull e => exact keep (h.congr rfl (failedLengths_refuseFull r e) rfl rfl rfl rfl)
  | refuseClosed e => exact keep (h.congr rfl (failedLengths_refuseClosed r e) rfl rfl rfl rfl)
  | stay => exact keep h
  | accept => exact keep (h.congr rfl rfl rfl rfl rfl rfl)
  | close => exact keep (h.congr rfl rfl rfl rfl rfl rfl)
  | take => exact keep (h.congr rfl rfl rfl rfl rfl rfl)
  | wait => exact keep (h.congr rfl rfl rfl rfl rfl rfl)

end Shipped

/-! ## Dialing -/

theorem ensureConnected_some {r : Relay} {s : Sink} (h : r.transmitter.connection = some s) :
    r.ensureConnected = r := by
  unfold ensureConnected
  rw [h]
  rfl

/-- What dialing alone changes, and the pauses that it is set up with. -/
def dialing (r : Relay) : Nat × List Duration × Backoff := (r.dials, r.pauses, r.backoff)

theorem dialing_conclude (r : Relay) (result : Verdict × Transmitter) :
    (r.conclude result).dialing = r.dialing := by
  obtain ⟨_, _, _, _, _, h⟩ := r.exists_conclude result
  rw [h]
  rfl

theorem dialing_schedule (r : Relay) : r.schedule.dialing = r.dialing := by
  unfold schedule
  dsimp only
  split
  · rfl
  · rfl

theorem dialing_retire (r : Relay) : r.retire.dialing = r.dialing := by
  unfold retire discardRest
  split
  · rfl
  · rfl

theorem dials_conclude (r : Relay) (result : Verdict × Transmitter) :
    (r.conclude result).dials = r.dials :=
  congrArg (·.1) (dialing_conclude r result)

theorem dials_schedule (r : Relay) : r.schedule.dials = r.dials :=
  congrArg (·.1) (dialing_schedule r)

theorem dials_retire (r : Relay) : r.retire.dials = r.dials :=
  congrArg (·.1) (dialing_retire r)

/-- As long as a connection is in use no other one is dialed. -/
theorem Change.dials {r r' : Relay} {offered accepted encoded : List Event} {s : Sink}
    (c : Change r offered accepted encoded r') (h : r.transmitter.connection = some s) :
    r'.dials = r.dials := by
  cases c with
  | handle e holding handled =>
      have hi : ({ r with stage := .idle } : Relay).ensureConnected = { r with stage := .idle } :=
        ensureConnected_some h
      rw [handle?_holding holding, hi] at handled
      cases handled
      exact dials_conclude _ _
  | schedule idle => exact dials_schedule r
  | flush idle =>
      unfold flushDue
      rw [ensureConnected_some h]
      dsimp only
      split
      · rw [dials_schedule]
        exact dials_conclude _ _
      · exact dials_conclude _ _
  | windUp idle drained =>
      have hf : r.finalFlush.dials = r.dials := by
        unfold finalFlush
        rw [ensureConnected_some h]
        split
        · rfl
        · exact dials_conclude _ _
      rcases windUp_cases idle with ⟨-, hw⟩ | ⟨-, hw⟩
      · rw [hw]
        exact hf
      · rw [hw, dials_retire]
        exact hf
  | stay => rfl
  | accept => rfl
  | refuseFull => rfl
  | refuseClosed => rfl
  | close => rfl
  | take => rfl
  | wait => rfl

/-! ## Whole runs -/

variable {s : Settings} {reactions : List Reaction} {answers : List DialAnswer} {clock : Clock}
  {past : List (Relay × Move)} {r : Relay}

theorem shipped_unscheduled (s : Settings) (reactions : List Reaction)
    (answers : List DialAnswer) (clock : Clock) :
    Shipped [] (unscheduled s reactions answers clock) :=
  ⟨[], .start, rfl, fun c hc => absurd hc (Option.some_ne_none c).symm,
    fun _ hc => absurd hc List.not_mem_nil, rfl, rfl, rfl⟩

theorem shipped_start (s : Settings) (reactions : List Reaction) (answers : List DialAnswer)
    (clock : Clock) : Shipped [] (start s reactions answers clock) :=
  (shipped_unscheduled s reactions answers clock).schedule

theorem run_shipped (h : Run step (start s reactions answers clock) past r) :
    Shipped (past.flatMap encoded) r :=
  run_invariant (P := fun _ _ encoded r => Shipped encoded r)
    (shipped_start s reactions answers clock) (fun h c => h.change c) h

/-- The connections share the chunks out among them: each one takes whole chunks, block by block,
from where the one before it stopped, and one that a failed flush gave up also the first bytes of
what that flush tried, which the next one gets again. A connection is not called any more once a
call to it has failed, but is given up, and only then another one is dialed. -/
theorem delivery (h : Run step (ofSettings s reactions answers clock) past r) :
    (∃ rest, Carried (chunks s.codec (past.flatMap encoded)) r.transmitter.retired
        r.transmitter.connection r.failedLengths rest ∧
      r.transmitter.pending = rest.flatten) ∧
    (∀ c, r.transmitter.connection = some c → c.Sound) ∧
    (∀ c ∈ r.transmitter.retired, c.GivenUp) ∧
    r.transmitter.counters.established = UInt64.ofNat r.transmitter.connections.length ∧
    (∀ m r', step r m = some r' → r'.dials ≠ r.dials → r.transmitter.connection = none) := by
  obtain ⟨rest, hl⟩ := run_shipped h
  have hcodec : r.codec = s.codec := congrArg (·.1) (run_terms h)
  refine ⟨⟨rest, hcodec ▸ hl.carried, hl.pending⟩, hl.sound, hl.givenUp, hl.established,
    fun m r' hm hd => ?_⟩
  cases hn : r.transmitter.connection with
  | none => rfl
  | some c => exact absurd ((step_change hm).dials hn) hd

/-- A flush for every event. -/
def eager : Settings :=
  { Settings.ofTarget (fun _ => .done [1, 2]) "udp" "localhost" with bufferSize := 1 }

/-- A connection that takes one byte and fails. -/
def brittle : Sink :=
  { Sink.ideal with
    writes := ⟨[⟨0, .take (some 1)⟩], ⟨0, .fail (.bare .brokenPipe)⟩⟩
    settles := rfl }

def resumption : Option (List (Relay × Move) × Relay) :=
  Run.follow step (ofSettings eager [] [.accept brittle] ⟨0, []⟩)
    [.submit sample, .submit sample, .take, .handle, .take, .handle, .close, .finish]

theorem delivery_resumption : ∃ past r,
    Run step (ofSettings eager [] [.accept brittle] ⟨0, []⟩) past r ∧
    r.transmitter.connections.map Sink.content = [[1], [1, 2, 1, 2]] ∧ r.failedLengths = [2] ∧
    (∃ rest, Carried (chunks eager.codec (past.flatMap encoded)) r.transmitter.retired
        r.transmitter.connection r.failedLengths rest ∧
      r.transmitter.pending = rest.flatten) ∧
    ∀ c ∈ r.transmitter.retired, c.GivenUp := by
  have hsome : resumption.isSome = true := by decide +kernel
  have hcontent : resumption.map (fun run => run.2.transmitter.connections.map Sink.content) =
      some [[1], [1, 2, 1, 2]] := by decide +kernel
  have hlengths : resumption.map (fun run => run.2.failedLengths) = some [2] := by
    decide +kernel
  obtain ⟨⟨past, r⟩, hr⟩ := Option.isSome_iff_exists.1 hsome
  rw [hr] at hcontent hlengths
  have h := Run.of_follow hr
  obtain ⟨hcarried, -, hgiven, -, -⟩ := delivery h
  exact ⟨past, r, h, Option.some.inj hcontent, Option.some.inj hlengths, hcarried, hgiven⟩

end Relay
end Telemetry
