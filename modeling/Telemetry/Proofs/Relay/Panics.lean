import Mathlib.Data.List.Forall2
import Telemetry.Proofs.Relay.Queue
import Telemetry.Relay.Threads
/-!
Panics of the callback are seen in the diagnostics and nowhere else.

Two relays are twins if they have been handed the same failures and differ in nothing but what their
callbacks have made of them. A relay takes no notice of its reporter, except that it hands failures
over and asks whether the callback closes it. So if two scripts of a callback close the relay in the
same calls, whatever is done to twins leaves them twins. The main statement is `panics_invisible`:
two runs of the same moves, in any interleaving of any number of threads, agree in every state, and
each leaves one report in the diagnostics for each call that panics.
-/

namespace Telemetry

/-- The callbacks close the relay in the same calls. They may panic in different ones. -/
def CloseAlike (a b : List Reaction) : Prop :=
  ∀ n, (a.getD n .quiet).closes = (b.getD n .quiet).closes

namespace Reporter

/-- The reporter of a callback that has been handed some failures. -/
def told (reactions : List Reaction) (fs : List Failure) : Reporter :=
  fs.foldl report (ofReactions reactions)

/-- One report for each call that panics, in the order of the calls. -/
def panicReports (reactions : List Reaction) (fs : List Failure) : List String :=
  (reactions.zip fs).filterMap fun x => x.1.panics.map fun p => diagnostic (p.text x.2)

theorem told_append (reactions : List Reaction) (fs : List Failure) (f : Failure) :
    told reactions (fs ++ [f]) = (told reactions fs).report f := by
  simp [told]

theorem foldl_report (r : Reporter) (fs : List Failure) :
    (fs.foldl report r).reactions = r.reactions.drop fs.length ∧
      (fs.foldl report r).reported = r.reported ++ fs ∧
      (fs.foldl report r).diagnostics = r.diagnostics ++ panicReports r.reactions fs := by
  induction fs generalizing r with
  | nil => simp [panicReports]
  | cons f fs ih =>
    obtain ⟨hreactions, hreported, hdiagnostics⟩ := ih (r.report f)
    rw [List.foldl_cons]
    refine ⟨?_, ?_, ?_⟩
    · rw [hreactions]
      show r.reactions.tail.drop fs.length = _
      rw [List.drop_tail]
      rfl
    · rw [hreported]
      simp
    · rw [hdiagnostics]
      show r.diagnostics ++ (r.reaction.panics.map fun p => diagnostic (p.text f)).toList ++
        panicReports r.reactions.tail fs = _
      cases hr : r.reactions with
      | nil => simp [reaction, hr, panicReports, Reaction.quiet]
      | cons x xs =>
        cases hp : x.panics with
        | none => simp [reaction, hr, panicReports, hp]
        | some p => simp [reaction, hr, panicReports, hp]

theorem reported_told (reactions : List Reaction) (fs : List Failure) :
    (told reactions fs).reported = fs :=
  (foldl_report (ofReactions reactions) fs).2.1

theorem diagnostics_told (reactions : List Reaction) (fs : List Failure) :
    (told reactions fs).diagnostics = panicReports reactions fs :=
  (foldl_report (ofReactions reactions) fs).2.2

theorem reaction_told (reactions : List Reaction) (fs : List Failure) :
    (told reactions fs).reaction = reactions.getD fs.length .quiet := by
  have h : (told reactions fs).reactions = reactions.drop fs.length :=
    (foldl_report (ofReactions reactions) fs).1
  unfold reaction
  rw [h]
  simp

end Reporter

/-! ## Twins -/

namespace Relay

/-- Relays whose callbacks have been handed the same failures, and that differ in nothing else. -/
def Twins (a b : List Reaction) (r s : Relay) : Prop :=
  ∃ fs, r.reporter = .told a fs ∧ s = { r with reporter := .told b fs }

namespace Twins

variable {a b : List Reaction} {r s : Relay}

theorem reported (h : Twins a b r s) : s.failures = r.failures := by
  obtain ⟨fs, hr, rfl⟩ := h
  unfold failures
  rw [hr, Reporter.reported_told, Reporter.reported_told]

/-- What takes no notice of the reporter leaves twins twins. -/
theorem silent (h : Twins a b r s) (g : Relay → Relay)
    (quiet : ∀ q, g { r with reporter := q } = { g r with reporter := q }) :
    Twins a b (g r) (g s) := by
  obtain ⟨fs, hr, rfl⟩ := h
  refine ⟨fs, ?_, quiet _⟩
  have hq : g r = { g r with reporter := r.reporter } := quiet r.reporter
  rw [hq]
  exact hr

/-- A choice that twins take alike. -/
theorem choose {r' s' : Relay} {c : Prop} [Decidable c] (h : Twins a b r s)
    (h' : Twins a b r' s') : Twins a b (if c then r else r') (if c then s else s') := by
  by_cases hc : c
  · rw [if_pos hc, if_pos hc]
    exact h
  · rw [if_neg hc, if_neg hc]
    exact h'

theorem closes (h : Twins a b r s) (same : CloseAlike a b) :
    s.reporter.reaction.closes = r.reporter.reaction.closes := by
  obtain ⟨fs, hr, rfl⟩ := h
  rw [hr, Reporter.reaction_told, Reporter.reaction_told]
  exact (same fs.length).symm

theorem report (h : Twins a b r s) (same : CloseAlike a b) (f : Failure) :
    Twins a b (r.report f) (s.report f) := by
  have hc := h.closes same
  obtain ⟨fs, hr, rfl⟩ := h
  refine ⟨fs ++ [f], ?_, ?_⟩
  · rw [Reporter.told_append, ← hr]
    rfl
  · unfold Relay.report
    rw [hc, Reporter.told_append]

theorem refuse (h : Twins a b r s) (same : CloseAlike a b) (e : Event) :
    Twins a b (r.refuseFull e) (s.refuseFull e) ∧
      Twins a b (r.refuseClosed e) (s.refuseClosed e) :=
  ⟨(h.silent (fun r => r.count .addQueueFull) fun _ => rfl).report same _,
    (h.silent (fun r => r.count .addQueueClosed) fun _ => rfl).report same _⟩

theorem dialStep (h : Twins a b r s) (same : CloseAlike a b) (d : DialStep) :
    Twins a b (r.dialStep d) (s.dialStep d) := by
  cases d with
  | dial => exact h.silent (fun r => r.dialStep .dial) fun _ => rfl
  | refused cause =>
    obtain ⟨fs, -, hs⟩ := id h
    have hn : s.network = r.network ∧ s.address = r.address := by
      rw [hs]
      exact ⟨rfl, rfl⟩
    show Twins a b ((r.count .addDialFailed).report (.dial r.network r.address cause))
      ((s.count .addDialFailed).report (.dial s.network s.address cause))
    rw [hn.1, hn.2]
    exact (h.silent (fun r => r.count .addDialFailed) fun _ => rfl).report same _
  | pause span => exact h.silent (fun r => r.dialStep (.pause span)) fun _ => rfl
  | established => exact h.silent (fun r => r.dialStep .established) fun _ => rfl

theorem dialSteps (h : Twins a b r s) (same : CloseAlike a b) (ds : List DialStep) :
    Twins a b (ds.foldl Relay.dialStep r) (ds.foldl Relay.dialStep s) := by
  induction ds generalizing r s with
  | nil => exact h
  | cons d ds ih => exact ih (h.dialStep same d)

theorem connect (h : Twins a b r s) (same : CloseAlike a b) : Twins a b r.connect s.connect := by
  obtain ⟨fs, -, hs⟩ := id h
  have hc : s.backoff.connect s.answers = r.backoff.connect r.answers := by rw [hs]
  unfold Relay.connect
  rw [hc]
  exact (h.dialSteps same (r.backoff.connect r.answers).steps).silent
    (fun q => { q with
      transmitter := q.transmitter.connect (r.backoff.connect r.answers).connection
      answers := (r.backoff.connect r.answers).answers }) fun _ => rfl

theorem transmitter (h : Twins a b r s) : s.transmitter = r.transmitter := by
  obtain ⟨fs, -, rfl⟩ := h
  rfl

theorem stage (h : Twins a b r s) : s.stage = r.stage := by
  obtain ⟨fs, -, rfl⟩ := h
  rfl

theorem isServing (h : Twins a b r s) : s.isServing = r.isServing := by
  unfold Relay.isServing
  rw [h.stage]

theorem ensureConnected (h : Twins a b r s) (same : CloseAlike a b) :
    Twins a b r.ensureConnected s.ensureConnected := by
  unfold Relay.ensureConnected
  rw [h.transmitter]
  exact (h.connect same).choose h

theorem conclude (h : Twins a b r s) (same : CloseAlike a b) (result : Verdict × Transmitter) :
    Twins a b (r.conclude result) (s.conclude result) := by
  have ht : Twins a b { r with transmitter := result.2 } { s with transmitter := result.2 } :=
    h.silent (fun r => { r with transmitter := result.2 }) fun _ => rfl
  unfold Relay.conclude
  cases result.1 with
  | done => exact ht
  | failed f => exact ht.report same f
  | crashed => exact ht.silent Relay.crash fun _ => rfl

theorem schedule (h : Twins a b r s) : Twins a b r.schedule s.schedule := by
  refine h.silent Relay.schedule fun q => ?_
  unfold Relay.schedule
  dsimp only [clock]
  cases Moment.after? r.transmitter.clock.read.now r.flushInterval with
  | none => rfl
  | some m => rfl

theorem flushed (h : Twins a b r s) (same : CloseAlike a b) : Twins a b r.flushed s.flushed := by
  have hc := h.ensureConnected same
  unfold Relay.flushed
  rw [hc.transmitter]
  exact hc.conclude same _

theorem flushDue (h : Twins a b r s) (same : CloseAlike a b) : Twins a b r.flushDue s.flushDue := by
  have hf := h.flushed same
  rw [flushDue_eq, flushDue_eq, hf.isServing]
  exact hf.schedule.choose hf

theorem finalFlush (h : Twins a b r s) (same : CloseAlike a b) :
    Twins a b r.finalFlush s.finalFlush := by
  unfold Relay.finalFlush
  rw [h.transmitter]
  exact h.choose (h.flushed same)

theorem retire (h : Twins a b r s) (same : CloseAlike a b) : Twins a b r.retire s.retire := by
  have hd : Twins a b r.discardRest s.discardRest := by
    unfold discardRest
    rw [h.transmitter]
    exact h.choose (h.report same _)
  exact hd.silent (fun r => { r with stage := .ended, transmitter := r.transmitter.disconnect })
    fun _ => rfl

theorem windUp (h : Twins a b r s) (same : CloseAlike a b) : Twins a b r.windUp s.windUp := by
  have hf := h.finalFlush same
  show Twins a b (if r.finalFlush.isServing then r.finalFlush.retire else r.finalFlush)
    (if s.finalFlush.isServing then s.finalFlush.retire else s.finalFlush)
  rw [hf.isServing]
  exact (hf.retire same).choose hf

theorem take (h : Twins a b r s) {r' : Relay} (ht : r.take? = some r') :
    ∃ s', s.take? = some s' ∧ Twins a b r' s' := by
  obtain ⟨e, queue, hs, hq, rfl⟩ := take?_eq_some ht
  refine ⟨{ s with stage := .holding e, queue }, ?_,
    h.silent (fun r => { r with stage := .holding e, queue }) fun _ => rfl⟩
  obtain ⟨fs, -, rfl⟩ := h
  unfold take?
  dsimp only
  rw [hs, hq]

theorem handle (h : Twins a b r s) (same : CloseAlike a b) {r' : Relay}
    (ht : r.handle? = some r') : ∃ s', s.handle? = some s' ∧ Twins a b r' s' := by
  obtain ⟨e, hs⟩ := holding_of_handle ht
  have hi : Twins a b { r with stage := .idle } { s with stage := .idle } :=
    h.silent (fun r => { r with stage := .idle }) fun _ => rfl
  have hc := hi.ensureConnected same
  have hcodec : { s with stage := .idle }.ensureConnected.codec =
      { r with stage := .idle }.ensureConnected.codec := by
    obtain ⟨fs, -, hk⟩ := hc
    rw [hk]
  rw [handle?_holding hs] at ht
  cases ht
  refine ⟨_, handle?_holding (h.stage.trans hs), ?_⟩
  rw [hc.transmitter, hcodec]
  exact hc.conclude same _

end Twins
end Relay

namespace Threads

/-- Threads at the same points, around relays that are twins. -/
def Twins (a b : List Reaction) (t u : Threads) : Prop :=
  ∃ r, Relay.Twins a b t.relay r ∧ u = { t with relay := r }

variable {a b : List Reaction} {t u : Threads}

/-- Offering an event leads twins to the same point. -/
theorem Twins.send (h : Twins a b t u) (same : CloseAlike a b) (i : Nat) (e : Event) (holds : Bool) :
    Twins a b (t.send i e holds) (u.send i e holds) := by
  obtain ⟨r, hr, rfl⟩ := h
  have hcloses := hr.closes same
  have haccepts : r.accepts = t.relay.accepts := by
    obtain ⟨fs, -, rfl⟩ := hr
    rfl
  have hfull : r.isFull = t.relay.isFull := by
    obtain ⟨fs, -, rfl⟩ := hr
    rfl
  have hoffer : Relay.Twins a b (t.relay.offer e) (r.offer e) := by
    unfold Relay.offer
    rw [hr.isServing, hfull]
    cases t.relay.isServing with
    | false => exact (hr.refuse same e).2
    | true =>
      cases t.relay.isFull with
      | true => exact (hr.refuse same e).1
      | false => exact hr.silent (fun r => r.accept e) fun _ => rfl
  unfold Threads.send
  dsimp only
  rw [haccepts, hcloses]
  by_cases ha : (holds && t.relay.accepts) = true
  · rw [if_pos ha, if_pos ha]
    exact ⟨_, hr.silent (fun r => r.accept e) fun _ => rfl, rfl⟩
  · rw [if_neg ha, if_neg ha]
    cases holds with
    | false => exact ⟨_, (hr.refuse same e).2, rfl⟩
    | true => exact ⟨_, hoffer, rfl⟩

/-- What one twin can do, the other one can do too, and they are twins again. -/
theorem Twins.step (h : Twins a b t u) (same : CloseAlike a b) {t' : Threads} {m : Move}
    (hs : t.step m = some t') : ∃ u', u.step m = some u' ∧ Twins a b t' u' := by
  have hsend := h.send same
  obtain ⟨r, hr, rfl⟩ := h
  cases step_cases hs with
  | load i e point =>
    refine ⟨_, Steps.enabled (.load i e point), r, hr, ?_⟩
    obtain ⟨fs, -, rfl⟩ := hr
    rfl
  | send i e holds point => exact ⟨_, Steps.enabled (.send i e holds point), hsend i e holds⟩
  | close i point =>
    exact ⟨_, Steps.enabled (.close i point), _, hr.silent Relay.close fun _ => rfl, rfl⟩
  | claim i holds point =>
    refine ⟨_, Steps.enabled (.claim i holds point), r, ?_, ?_⟩
    · rw [relay_claim]
      exact hr
    · unfold claim
      dsimp only
      by_cases hj : t.joinable = true
      · rw [if_pos hj, if_pos hj]
        rfl
      · rw [if_neg hj, if_neg hj]
        rfl
  | joined i holds point gone =>
    exact ⟨_, Steps.enabled (.joined i holds point (hr.isServing.trans gone)), r, hr, rfl⟩
  | leave i holds point => exact ⟨_, Steps.enabled (.leave i holds point), r, hr, rfl⟩
  | begin phase idle =>
    exact ⟨_, Steps.enabled (.begin phase (hr.stage.trans idle)), _, hr.schedule, rfl⟩
  | take relay phase taken =>
    obtain ⟨r', ht, hr'⟩ := hr.take taken
    exact ⟨_, Steps.enabled (.take r' phase ht), r', hr', rfl⟩
  | handle relay handled =>
    obtain ⟨r', ht, hr'⟩ := hr.handle same handled
    exact ⟨_, Steps.enabled (.handle r' ht), r', hr', rfl⟩
  | expire phase idle reachable due =>
    refine ⟨_, Steps.enabled (.expire phase ?_ ?_ ?_), r, hr, rfl⟩
    all_goals obtain ⟨fs, -, rfl⟩ := hr
    · exact idle
    · exact reachable
    · exact due
  | tick phase idle =>
    exact ⟨_, Steps.enabled (.tick phase (hr.stage.trans idle)), _, hr.flushDue same, rfl⟩
  | finish phase idle gone =>
    refine ⟨_, Steps.enabled (.finish phase ?_ ?_), _, hr.windUp same, rfl⟩
    all_goals obtain ⟨fs, -, rfl⟩ := hr
    · exact idle
    · exact gone
  | wait nanos =>
    refine ⟨_, Steps.enabled (.wait nanos), _,
      hr.silent (fun r => r.setClock (r.clock.pass nanos)) fun _ => rfl, rfl⟩

/-- What can be done to one twin, move by move, can be done to the other one. -/
theorem Twins.run (h : Twins a b t u) (same : CloseAlike a b) {past : List (Threads × Move)}
    {v : Threads} (hv : Run Threads.step t past v) :
    ∃ past' v', Run Threads.step u past' v' ∧ past'.map Prod.snd = past.map Prod.snd ∧
      List.Forall₂ (fun x y => Twins a b x.1 y.1 ∧ y.2 = x.2) past past' ∧ Twins a b v v' := by
  induction hv with
  | start => exact ⟨[], u, .start, rfl, .nil, h⟩
  | @next past v w m _ enabled ih =>
    obtain ⟨past', v', hv', hmoves, hpast, hlast⟩ := ih
    obtain ⟨w', hw', hnext⟩ := hlast.step same enabled
    refine ⟨past' ++ [(v', m)], w', hv'.next hw', ?_, ?_, hnext⟩
    · rw [List.map_append, List.map_append, hmoves]
      rfl
    · exact List.rel_append hpast (.cons ⟨hlast, rfl⟩ .nil)

/-- The same threads, with another reporter. -/
def reportingTo (t : Threads) (q : Reporter) : Threads :=
  { t with relay := { t.relay with reporter := q } }

theorem Twins.eq_reportingTo (h : Twins a b t u) : u = t.reportingTo u.relay.reporter := by
  obtain ⟨r, ⟨fs, -, rfl⟩, rfl⟩ := h
  rfl

theorem Twins.diagnostics (h : Twins a b t u) :
    t.relay.reporter.diagnostics = Reporter.panicReports a t.relay.failures ∧
      u.relay.reporter.diagnostics = Reporter.panicReports b t.relay.failures := by
  obtain ⟨r, ⟨fs, hr, rfl⟩, rfl⟩ := h
  have hf : t.relay.failures = fs := by
    unfold Relay.failures
    rw [hr, Reporter.reported_told]
  rw [hf]
  constructor
  · rw [hr, Reporter.diagnostics_told]
  · exact Reporter.diagnostics_told b fs

theorem accepted_reportingTo (t : Threads) (q : Reporter) (m : Move) :
    accepted (t.reportingTo q, m) = accepted (t, m) := by
  cases m with
  | send i => rfl
  | _ => rfl

theorem map_accepted {past past' : List (Threads × Move)}
    (h : List.Forall₂ (fun x y => y = (x.1.reportingTo y.1.relay.reporter, x.2)) past past') :
    past'.map accepted = past.map accepted := by
  induction h with
  | nil => rfl
  | @cons x y _ _ hxy _ ih =>
    rw [List.map_cons, List.map_cons, ih, hxy, accepted_reportingTo]

theorem start_twins (a b : List Reaction) (s : Settings) (answers : List DialAnswer) (clock : Clock)
    (count : Nat) :
    Twins a b (start (.unscheduled s a answers clock) count)
      (start (.unscheduled s b answers clock) count) :=
  ⟨.unscheduled s b answers clock, ⟨[], rfl, rfl⟩, rfl⟩

/-- Whatever a callback panics with, and in whichever of its calls, the threads and the worker do
what they do without it: the same moves can be made, and they lead through the same states, but for
the reporter. Connections, failures, pauses, counters and the outcome of every call are the same.
Each call that panics leaves one report in the diagnostics, and nothing else gets there. -/
theorem panics_invisible (same : CloseAlike a b) {s : Settings} {answers : List DialAnswer}
    {clock : Clock} {count : Nat} {past : List (Threads × Move)}
    (h : Run step (start (.unscheduled s a answers clock) count) past t) :
    (∃ past' t', Run step (start (.unscheduled s b answers clock) count) past' t' ∧
      past'.map Prod.snd = past.map Prod.snd) ∧
    ∀ past' t', Run step (start (.unscheduled s b answers clock) count) past' t' →
      past'.map Prod.snd = past.map Prod.snd →
      List.Forall₂ (fun x y => y = (x.1.reportingTo y.1.relay.reporter, x.2)) past past' ∧
      t' = t.reportingTo t'.relay.reporter ∧
      t'.relay.transmitter.connections = t.relay.transmitter.connections ∧
      t'.relay.failures = t.relay.failures ∧
      t'.relay.pauses = t.relay.pauses ∧
      t'.relay.transmitter.counters = t.relay.transmitter.counters ∧
      past'.map accepted = past.map accepted ∧
      t.relay.reporter.diagnostics = Reporter.panicReports a t.relay.failures ∧
      t'.relay.reporter.diagnostics = Reporter.panicReports b t.relay.failures := by
  obtain ⟨twin, u, hu, hmoves, hpast, hlast⟩ := (start_twins a b s answers clock count).run same h
  refine ⟨⟨twin, u, hu, hmoves⟩, fun past' t' ht' hm => ?_⟩
  obtain ⟨rfl, rfl⟩ := hu.unique ht' (hm.trans hmoves.symm)
  have hsame := hlast.eq_reportingTo
  have hall : List.Forall₂ (fun x y => y = (x.1.reportingTo y.1.relay.reporter, x.2)) past past' :=
    hpast.imp fun x y hxy => Prod.ext hxy.1.eq_reportingTo hxy.2
  obtain ⟨r, hr, hk⟩ := id hlast
  refine ⟨hall, hsame, ?_, ?_, ?_, ?_, map_accepted hall, hlast.diagnostics⟩
  · rw [hsame]
    rfl
  · rw [hk]
    exact hr.reported
  · rw [hsame]
    rfl
  · rw [hsame]
    rfl

/-- A callback that panics with a text in its first call, and closes the relay in its second one. -/
def startled : List Reaction := [⟨false, some (.words "boom")⟩, ⟨true, none⟩]

/-- One that closes the relay in the same call, and panics there and later. -/
def alarmed : List Reaction := [.quiet, ⟨true, some (.citing "at ")⟩, ⟨false, some .wordless⟩]

theorem startled_closes : CloseAlike startled alarmed
  | 0 => rfl
  | 1 => rfl
  | 2 => rfl
  | _ + 3 => rfl

/-- Of three events one finds the queue full and one finds the relay closed, which a failure of the
encoder has led to. -/
def disturbed (reactions : List Reaction) : Option (List (Threads × Move) × Threads) :=
  Run.follow step (start (.unscheduled Relay.cramped.withDefaults reactions [] ⟨0, []⟩) 1)
    [.begin, .load 0 Relay.sample, .send 0, .leave 0, .load 0 Relay.sample, .send 0, .leave 0, .take,
      .handle, .load 0 Relay.sample, .send 0, .leave 0, .finish]

theorem panics_invisible_scripts : ∃ past t past' t',
    Run step (start (.unscheduled Relay.cramped.withDefaults startled [] ⟨0, []⟩) 1) past t ∧
    Run step (start (.unscheduled Relay.cramped.withDefaults alarmed [] ⟨0, []⟩) 1) past' t' ∧
    past'.map Prod.snd = past.map Prod.snd ∧ t'.relay.failures = t.relay.failures ∧
    t'.relay.transmitter.counters = t.relay.transmitter.counters ∧
    t.relay.reporter.diagnostics = ["panic: boom [recovered]"] ∧
    t'.relay.reporter.diagnostics =
      ["panic: at failed to encode metric requests: invalid input parameter [recovered]",
        "panic: Box<dyn Any> [recovered]"] := by
  have hsome : (disturbed startled).isSome = true := by decide +kernel
  have hreports : (disturbed startled).map (fun run =>
      (Reporter.panicReports startled run.2.relay.failures,
        Reporter.panicReports alarmed run.2.relay.failures)) =
      some (["panic: boom [recovered]"],
        ["panic: at failed to encode metric requests: invalid input parameter [recovered]",
          "panic: Box<dyn Any> [recovered]"]) := by
    decide +kernel
  obtain ⟨⟨past, t⟩, hr⟩ := Option.isSome_iff_exists.1 hsome
  rw [hr] at hreports
  have h := Run.of_follow hr
  obtain ⟨⟨past', t', ht', hm⟩, hall⟩ := panics_invisible startled_closes h
  obtain ⟨-, -, -, hfailures, -, hcounters, -, hfirst, hsecond⟩ := hall past' t' ht' hm
  have hc := Option.some.inj hreports
  exact ⟨past, t, past', t', h, ht', hm, hfailures, hcounters, hfirst.trans (congrArg (·.1) hc),
    hsecond.trans (congrArg (·.2) hc)⟩

end Threads
end Telemetry
