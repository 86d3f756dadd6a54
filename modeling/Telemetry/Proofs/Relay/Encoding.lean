import Telemetry.Proofs.Relay.Changes
/-!
Every event that the encoder refuses is reported.

An event that was handed to the encoder is encoded, or the encoder refuses it, and then this is
reported once, at that time, with the event's name and the encoder's cause. No other part of a relay
reports a failure of this kind.
-/

namespace Telemetry

/-- The reports of an operation. -/
def Verdict.failures : Verdict → List Failure
  | .failed f => [f]
  | _ => []

/-- What is reported about an event's encoding. -/
def Encoded.refusal (name : String) : Encoded → List Failure
  | .failed _ cause => [.encode name cause]
  | _ => []

def encodeReports (fs : List Failure) : List Failure := fs.filter fun f => f.kind = .encode

theorem encodeReports_append (fs gs : List Failure) :
    encodeReports (fs ++ gs) = encodeReports fs ++ encodeReports gs :=
  List.filter_append ..

theorem encodeReports_nil {fs : List Failure} (h : ∀ f ∈ fs, f.kind ≠ .encode) :
    encodeReports fs = [] := by
  refine List.filter_eq_nil_iff.2 fun f hf => ?_
  rw [decide_eq_true_eq]
  exact h f hf

namespace Transmitter

theorem encodeReports_flush (t : Transmitter) (n : Nat) :
    encodeReports (t.flush n).1.failures = [] := by
  have ho := t.flush_outcome n
  generalize t.flush n = result at ho ⊢
  cases ho with
  | idle => rfl
  | late => rfl
  | flushed => rfl
  | failed => rfl

theorem encodeReports_write (t : Transmitter) (name : String) (encoded : Encoded) :
    encodeReports (t.write name encoded).1.failures = encoded.refusal name := by
  cases encoded with
  | crashed => rfl
  | failed bytes cause => rfl
  | done bytes =>
      unfold write
      dsimp only
      split
      · rfl
      · exact encodeReports_flush _ _

end Transmitter

namespace Relay

/-- What is to be reported about the encoding of these events. -/
def refusals (codec : Codec) (encoded : List Event) : List Failure :=
  encoded.flatMap fun e => (codec e).refusal e.metric.name

/-- The refused events are exactly those that were reported, in their order. -/
def Refused (encoded : List Event) (r : Relay) : Prop :=
  encodeReports r.failures = refusals r.codec encoded

theorem failures_conclude (r : Relay) (result : Verdict × Transmitter) :
    (r.conclude result).failures = r.failures ++ result.1.failures := by
  unfold conclude
  dsimp only
  split
  · next hv =>
    rw [hv]
    exact (List.append_nil r.failures).symm
  · next f hv =>
    rw [hv]
    rfl
  · next hv =>
    rw [hv]
    exact (List.append_nil r.failures).symm

theorem encodeReports_ensureConnected (r : Relay) :
    encodeReports r.ensureConnected.failures = encodeReports r.failures := by
  rcases r.ensureConnected_cases with ⟨s, -, he⟩ | ⟨-, s, -, hd⟩
  · rw [he]
  · obtain ⟨fs, hf, hk⟩ := hd.reports
    have hn : encodeReports fs = [] :=
      encodeReports_nil fun f hm he => nomatch (hk f hm).symm.trans he
    rw [hf, encodeReports_append, hn, List.append_nil]

theorem encodeReports_flushAll (r : Relay) :
    encodeReports (r.conclude r.transmitter.flushAll).failures = encodeReports r.failures := by
  rw [failures_conclude, encodeReports_append]
  unfold Transmitter.flushAll
  rw [Transmitter.encodeReports_flush, List.append_nil]

theorem failures_schedule (r : Relay) : r.schedule.failures = r.failures := by
  unfold schedule
  dsimp only
  split
  · rfl
  · rfl

theorem encodeReports_flushDue (r : Relay) :
    encodeReports r.flushDue.failures = encodeReports r.failures := by
  have hf := (encodeReports_flushAll r.ensureConnected).trans (encodeReports_ensureConnected r)
  unfold flushDue
  dsimp only
  split
  · rw [failures_schedule]
    exact hf
  · exact hf

theorem encodeReports_windUp {r : Relay} (h : r.stage = .idle) :
    encodeReports r.windUp.failures = encodeReports r.failures := by
  have hf : encodeReports r.finalFlush.failures = encodeReports r.failures := by
    unfold finalFlush
    split
    · rfl
    · exact (encodeReports_flushAll r.ensureConnected).trans (encodeReports_ensureConnected r)
  have hd (q : Relay) : encodeReports q.retire.failures = encodeReports q.failures := by
    unfold retire discardRest
    split
    · rfl
    · show encodeReports (q.failures ++ [_]) = _
      rw [encodeReports_append]
      exact List.append_nil _
  rcases windUp_cases h with ⟨-, hw⟩ | ⟨-, hw⟩
  · rw [hw]
    exact hf
  · rw [hw]
    exact (hd _).trans hf

theorem Refused.handle {encoded : List Event} {r r' : Relay} {e : Event}
    (h : Refused encoded r) (hs : r.stage = .holding e) (hr : r.handle? = some r') :
    Refused (encoded ++ [e]) r' := by
  have hc : r'.codec = r.codec := codec_eq (works_handle hs hr).terms
  unfold Refused at h ⊢
  rw [hc]
  rw [handle?_holding hs] at hr
  cases hr
  have hq : ({ r with stage := .idle } : Relay).ensureConnected.codec = r.codec :=
    codec_eq (works_ensureConnected { r with stage := .idle }).terms
  rw [failures_conclude, encodeReports_append, encodeReports_ensureConnected,
    Transmitter.encodeReports_write, hq, refusals, List.flatMap_append, List.flatMap_singleton]
  exact congrArg (· ++ (r.codec e).refusal e.metric.name) h

theorem Refused.change {encoded offered' accepted' encoded' : List Event} {r r' : Relay}
    (h : Refused encoded r) (c : Change r offered' accepted' encoded' r') :
    Refused (encoded ++ encoded') r' := by
  have hc : r'.codec = r.codec := codec_eq c.terms
  have keep (he : encodeReports r'.failures = encodeReports r.failures) :
      Refused (encoded ++ []) r' := by
    rw [List.append_nil, Refused, hc, he]
    exact h
  cases c with
  | handle e holding handled => exact h.handle holding handled
  | schedule idle => exact keep (congrArg encodeReports (failures_schedule r))
  | flush idle => exact keep (encodeReports_flushDue r)
  | windUp idle drained => exact keep (encodeReports_windUp idle)
  | refuseFull e serving full =>
      refine keep ?_
      show encodeReports (r.failures ++ [_]) = _
      rw [encodeReports_append]
      exact List.append_nil _
  | refuseClosed e =>
      refine keep ?_
      show encodeReports (r.failures ++ [_]) = _
      rw [encodeReports_append]
      exact List.append_nil _
  | stay => exact keep rfl
  | accept => exact keep rfl
  | close => exact keep rfl
  | take => exact keep rfl
  | wait => exact keep rfl

end Relay
end Telemetry
