import Telemetry.Proofs.Relay.Conservation
/-!
Every failure of the worker is counted and reported.

An operation counts each failure that it answers with, and the relay reports it in the same step. A
cycle of dialing makes one connection, and each of its other dial calls is counted and reported.
-/

namespace Telemetry

/-- How many failures of a kind an operation answers with. -/
def Verdict.reports (v : Verdict) (k : Failure.Kind) : Nat := v.failures.countP fun f => f.kind = k

/-- The counts of what went wrong on the worker's way. -/
def Counters.troubles (c : Counters) : UInt64 × UInt64 × UInt64 :=
  (c.dialFailed, c.encodeFailed, c.writeFailed)

namespace Transmitter

/-- An operation counts each failure that it answers with, and gives its connection up with a failed
flush only. -/
structure Counts (t : Transmitter) (r : Verdict × Transmitter) : Prop where
  dial : r.1.reports .dial = 0
  dialFailed : r.2.counters.dialFailed = t.counters.dialFailed
  encodeFailed : r.2.counters.encodeFailed =
    t.counters.encodeFailed + UInt64.ofNat (r.1.reports .encode)
  writeFailed : r.2.counters.writeFailed =
    t.counters.writeFailed + UInt64.ofNat (r.1.reports .write)
  connections : r.2.connections.length = t.connections.length
  retired : r.2.retired.length = t.retired.length + r.1.reports .write
  kept : r.1 = .crashed → r.2.connection = t.connection

theorem counts_quiet {t t' : Transmitter} {v : Verdict} (hv : v.failures = [])
    (hc : t'.counters.troubles = t.counters.troubles) (hr : t'.retired = t.retired)
    (hn : t'.connections.length = t.connections.length)
    (hk : v = .crashed → t'.connection = t.connection) : t.Counts (v, t') := by
  have none (k : Failure.Kind) : v.reports k = 0 := by
    rw [Verdict.reports, hv]
    rfl
  refine ⟨none .dial, congrArg (·.1) hc, ?_, ?_, hn, ?_, hk⟩
  · rw [none]
    exact (congrArg (·.2.1) hc).trans (UInt64.add_zero _).symm
  · rw [none]
    exact (congrArg (·.2.2) hc).trans (UInt64.add_zero _).symm
  · rw [none, hr]
    rfl

theorem counts_flush (t : Transmitter) (n : Nat) : t.Counts (t.flush n) := by
  have ho := t.flush_outcome n
  generalize t.flush n = r at ho ⊢
  cases ho with
  | idle => exact counts_quiet rfl rfl rfl rfl nofun
  | late clock hc => exact counts_quiet rfl rfl rfl rfl fun _ => rfl
  | flushed s' clock hc =>
      refine counts_quiet rfl rfl rfl ?_ nofun
      rw [connections_connected (s := s') rfl, connections_connected hc, List.length_append,
        List.length_append, List.length_singleton, List.length_singleton]
  | failed s' clock e hc =>
      refine ⟨rfl, rfl, (UInt64.add_zero _).symm, rfl, ?_, ?_, nofun⟩
      · rw [connections_retired rfl, connections_connected hc, List.length_append,
          List.length_append, List.length_singleton, List.length_singleton]
      · show (t.retired ++ [s'.drop]).length = _
        rw [List.length_append]
        rfl

theorem counts_write (t : Transmitter) (name : String) (encoded : Encoded) :
    t.Counts (t.write name encoded) := by
  cases encoded with
  | crashed => exact counts_quiet rfl rfl rfl rfl fun _ => rfl
  | failed bytes cause => exact ⟨rfl, rfl, rfl, (UInt64.add_zero _).symm, rfl, rfl, nofun⟩
  | done bytes =>
      unfold write
      dsimp only
      split
      · exact counts_quiet rfl rfl rfl rfl nofun
      · have h := counts_flush { t with pending := t.pending ++ bytes }
          (due t.pending.length (t.pending ++ bytes).length)
        exact ⟨h.dial, h.dialFailed, h.encodeFailed, h.writeFailed, h.connections, h.retired,
          h.kept⟩

end Transmitter

namespace Relay

/-- With so many connections made, each other dial call was counted and reported. -/
def Toll (connections : Nat) (r : Relay) : Prop :=
  r.transmitter.counters.dialFailed = UInt64.ofNat (r.reports .dial) ∧
    r.dials = connections + r.reports .dial

/-- The counts of what went wrong on the worker's way are those of the reports. -/
structure Counted (r : Relay) : Prop where
  toll : r.Toll r.transmitter.connections.length
  encodeFailed : r.transmitter.counters.encodeFailed = UInt64.ofNat (r.reports .encode)
  writeFailed : r.transmitter.counters.writeFailed = UInt64.ofNat (r.reports .write)

theorem reports_conclude (r : Relay) (result : Verdict × Transmitter) (k : Failure.Kind) :
    (r.conclude result).reports k = r.reports k + result.1.reports k :=
  reports_append (failures_conclude r result) k

theorem reports_same {r r' : Relay} (h : r'.failures = r.failures) (k : Failure.Kind) :
    r'.reports k = r.reports k := by
  unfold reports
  rw [h]

theorem reports_other {r r' : Relay} {fs : List Failure} (h : r'.failures = r.failures ++ fs)
    {k l : Failure.Kind} (hk : ∀ f ∈ fs, f.kind = k) (hl : k ≠ l) : r'.reports l = r.reports l := by
  rw [reports_append h, Nat.add_eq_left, List.countP_eq_zero]
  intro f hf
  rw [hk f hf, decide_eq_true_eq]
  exact hl

theorem counters_conclude (r : Relay) (result : Verdict × Transmitter) :
    (r.conclude result).transmitter.counters = result.2.counters := by
  unfold conclude
  dsimp only
  split
  · rfl
  · rfl
  · rfl

theorem length_disconnect (t : Transmitter) :
    t.disconnect.connections.length = t.connections.length := by
  unfold Transmitter.disconnect Transmitter.connections
  cases t.connection with
  | none => simp
  | some s => simp

theorem connections_conclude (r : Relay) (result : Verdict × Transmitter) :
    (r.conclude result).transmitter.connections.length = result.2.connections.length := by
  unfold conclude
  dsimp only
  split
  · rfl
  · rfl
  · exact length_disconnect result.2

namespace Toll

variable {r r' : Relay} {n : Nat}

theorem same (h : r.Toll n) (hr : r'.reports .dial = r.reports .dial)
    (hc : r'.transmitter.counters.dialFailed = r.transmitter.counters.dialFailed)
    (hd : r'.dials = r.dials) : r'.Toll n := by
  unfold Toll
  rw [hr, hc, hd]
  exact h

theorem established (h : r.Toll n) : r.established.Toll (n + 1) := by
  obtain ⟨hf, hd⟩ := h
  refine ⟨hf, ?_⟩
  show r.dials + 1 = n + 1 + r.reports .dial
  omega

theorem refused (h : r.Toll n) (cause : IoError) (span : Duration) :
    (r.refused cause span).Toll n := by
  obtain ⟨hf, hd⟩ := h
  have hl : (r.refused cause span).failures = r.failures ++ [.dial r.network r.address cause] := rfl
  have hr : (r.refused cause span).reports .dial = r.reports .dial + 1 := reports_append hl .dial
  unfold Toll
  rw [hr, UInt64.ofNat_add, ← hf]
  refine ⟨rfl, ?_⟩
  show r.dials + 1 = n + (r.reports .dial + 1)
  omega

/-- A cycle makes one connection. -/
theorem steps (h : r.Toll n) (b : Backoff) (answers : List DialAnswer) :
    ((b.connect answers).steps.foldl dialStep r).Toll (n + 1) := by
  induction answers generalizing b r with
  | nil =>
      show Toll _ ((r.dialStep .dial).dialStep .established)
      rw [dialStep_established]
      exact h.established
  | cons answer answers ih =>
      cases answer with
      | accept s =>
          show Toll _ ((r.dialStep .dial).dialStep .established)
          rw [dialStep_established]
          exact h.established
      | refuse cause =>
          have hs : (b.connect (.refuse cause :: answers)).steps = .dial :: .refused cause ::
              .pause b.next :: (b.advance.connect answers).steps := rfl
          rw [hs, List.foldl_cons, List.foldl_cons, List.foldl_cons, dialStep_refused]
          exact ih (h.refused cause b.next) b.advance

end Toll

namespace Counted

variable {r r' : Relay}

theorem congr (h : Counted r) (hf : r'.failures = r.failures) (hd : r'.dials = r.dials)
    (hc : r'.transmitter.counters.troubles = r.transmitter.counters.troubles)
    (hn : r'.transmitter.connections.length = r.transmitter.connections.length) : Counted r' := by
  have hr := reports_same hf
  refine ⟨?_, ?_, ?_⟩
  · rw [hn]
    exact h.toll.same (hr .dial) (congrArg (·.1) hc) hd
  · rw [hr]
    exact (congrArg (·.2.1) hc).trans h.encodeFailed
  · rw [hr]
    exact (congrArg (·.2.2) hc).trans h.writeFailed

/-- A report of a kind that is counted elsewhere. -/
theorem report (h : Counted r) {f : Failure} (hf : ¬ f.IsWork) : Counted (r.report f) := by
  have hl : (r.report f).failures = r.failures ++ [f] := rfl
  have hr {k : Failure.Kind} (hk : f.kind ≠ k) : (r.report f).reports k = r.reports k := by
    refine reports_other hl (fun g hg => ?_) hk
    rw [List.mem_singleton.1 hg]
  refine ⟨?_, ?_, ?_⟩
  · exact h.toll.same (hr fun hk => hf (.inl hk)) rfl rfl
  · rw [hr fun hk => hf (.inr (.inl hk))]
    exact h.encodeFailed
  · rw [hr fun hk => hf (.inr (.inr hk))]
    exact h.writeFailed

theorem conclude (h : Counted r) {result : Verdict × Transmitter}
    (hc : r.transmitter.Counts result) : Counted (r.conclude result) where
  toll := by
    rw [connections_conclude, hc.connections]
    refine h.toll.same ?_ ?_ (dials_conclude r result)
    · rw [reports_conclude, hc.dial]
      rfl
    · rw [counters_conclude]
      exact hc.dialFailed
  encodeFailed := by
    rw [counters_conclude, reports_conclude, hc.encodeFailed, h.encodeFailed, UInt64.ofNat_add]
  writeFailed := by
    rw [counters_conclude, reports_conclude, hc.writeFailed, h.writeFailed, UInt64.ofNat_add]

theorem ensureConnected (h : Counted r) : Counted r.ensureConnected := by
  rcases r.ensureConnected_cases with ⟨s, -, he⟩ | ⟨hn, s, -, hd⟩
  · rw [he]
    exact h
  · obtain ⟨fs, hf, hk⟩ := hd.reports
    obtain ⟨dialFailed, clock, ht⟩ := hd.transmitter
    have hl : r.ensureConnected.transmitter.connections.length =
        r.transmitter.connections.length + 1 := by
      rw [ht, Transmitter.connections_retired hn]
      exact List.length_append
    refine ⟨?_, ?_, ?_⟩
    · rw [hl]
      unfold Relay.ensureConnected
      rw [hn]
      exact (h.toll.steps r.backoff r.answers).same rfl rfl rfl
    · rw [reports_other hf hk (l := .encode) nofun, ← h.encodeFailed, ht]
    · rw [reports_other hf hk (l := .write) nofun, ← h.writeFailed, ht]

theorem flushed (h : Counted r) : Counted r.flushed :=
  h.ensureConnected.conclude (Transmitter.counts_flush _ _)

theorem schedule (h : Counted r) : Counted r.schedule := by
  unfold Relay.schedule
  dsimp only
  split
  · exact h.congr rfl rfl rfl (length_disconnect _)
  · exact h.congr rfl rfl rfl rfl

theorem finalFlush (h : Counted r) : Counted r.finalFlush := by
  unfold Relay.finalFlush
  split
  · exact h
  · exact h.flushed

theorem retire (h : Counted r) : Counted r.retire := by
  have hd : Counted r.discardRest := by
    unfold discardRest
    split
    · exact h
    · exact h.report fun hw => Failure.kind_of_isWork hw rfl
  exact hd.congr rfl rfl rfl (length_disconnect _)

theorem change {offered accepted encoded : List Event} (h : Counted r)
    (c : Change r offered accepted encoded r') : Counted r' := by
  cases c with
  | handle e holding handled =>
      rw [handle?_holding holding] at handled
      cases handled
      have hi : Counted { r with stage := .idle } := h.congr rfl rfl rfl rfl
      exact hi.ensureConnected.conclude (Transmitter.counts_write _ _ _)
  | schedule idle => exact h.schedule
  | flush idle =>
      rw [flushDue_eq]
      split
      · exact h.flushed.schedule
      · exact h.flushed
  | windUp idle drained =>
      rcases windUp_cases idle with ⟨-, hw⟩ | ⟨-, hw⟩
      · rw [hw]
        exact h.finalFlush
      · rw [hw]
        exact h.finalFlush.retire
  | refuseFull e serving full =>
      have hc : Counted (r.count .addQueueFull) := h.congr rfl rfl rfl rfl
      exact hc.report (by simp [Failure.IsWork, Failure.kind])
  | refuseClosed e =>
      have hc : Counted (r.count .addQueueClosed) := h.congr rfl rfl rfl rfl
      exact hc.report (by simp [Failure.IsWork, Failure.kind])
  | stay => exact h
  | accept => exact h.congr rfl rfl rfl rfl
  | close => exact h.congr rfl rfl rfl rfl
  | take => exact h.congr rfl rfl rfl rfl
  | wait => exact h.congr rfl rfl rfl rfl

end Counted

end Relay
end Telemetry
