import Telemetry.Proofs.Relay.Queue
import Telemetry.Proofs.Relay.Encoding
/-!
Closing a relay while other threads submit events to it.

A thread that found the entrance keeps it within reach until it lets go. The worker leaves only once
the entrance is empty and no thread holds on to it, and from then on no event can get into the
queue; so an event that did get in is handed to the encoder, however late in a race with closing it
came. A worker that is taken down before that loses what is in the queue: `run_whole_iff` says by
which moves.
-/

namespace Telemetry

theorem Relay.refused_unscheduled (s : Settings) (reactions : List Reaction)
    (answers : List DialAnswer) (clock : Clock) :
    Relay.Refused [] (Relay.unscheduled s reactions answers clock) := rfl

namespace Threads

/-! ## Where a thread goes -/

/-- The thread that makes a move, unless the worker or time does. -/
def Move.thread? : Move → Option Nat
  | .load i _ => some i
  | .send i => some i
  | .close i => some i
  | .claim i => some i
  | .joined i => some i
  | .leave i => some i
  | _ => none

/-- A move of thread `i` from one point to another. -/
inductive Passes (t : Threads) (i : Nat) : Move → Point → Point → Prop where
  | load (e : Event) : Passes t i (.load i e) .outside (.loaded e t.relay.isOpen)
  | send (e : Event) (holds closes : Bool) :
      Passes t i (.send i) (.loaded e holds) (if closes then .emptied holds else .leaving holds)
  | close : Passes t i (.close i) .outside (.emptied false)
  | claim (holds waits : Bool) :
      Passes t i (.claim i) (.emptied holds) (if waits then .joining holds else .leaving holds)
  | joined (holds : Bool) : Passes t i (.joined i) (.joining holds) (.leaving holds)
  | leave (holds : Bool) : Passes t i (.leave i) (.leaving holds) .outside

theorem Passes.thread? {t : Threads} {i : Nat} {m : Move} {p q : Point} (h : Passes t i m p q) :
    m.thread? = some i := by
  cases h <;> rfl

/-- A move of a thread takes it from its point to another one. -/
theorem step_thread {t t' : Threads} {m : Move} {i : Nat} (h : t.step m = some t')
    (hm : m.thread? = some i) :
    ∃ p q, Passes t i m p q ∧ t.points[i]? = some p ∧ t'.points = t.points.set i q := by
  cases step_cases h with
  | load j e point =>
      obtain rfl : j = i := Option.some.inj hm
      exact ⟨_, _, .load e, point, rfl⟩
  | send j e holds point =>
      obtain rfl : j = i := Option.some.inj hm
      unfold send
      split
      · exact ⟨_, _, .send e holds false, point, rfl⟩
      · exact ⟨_, _, .send e holds t.relay.reporter.reaction.closes, point, rfl⟩
  | close j point =>
      obtain rfl : j = i := Option.some.inj hm
      exact ⟨_, _, .close, point, rfl⟩
  | claim j holds point =>
      obtain rfl : j = i := Option.some.inj hm
      unfold claim
      split
      · exact ⟨_, _, .claim holds true, point, rfl⟩
      · exact ⟨_, _, .claim holds false, point, rfl⟩
  | joined j holds point gone =>
      obtain rfl : j = i := Option.some.inj hm
      exact ⟨_, _, .joined holds, point, rfl⟩
  | leave j holds point =>
      obtain rfl : j = i := Option.some.inj hm
      exact ⟨_, _, .leave holds, point, rfl⟩
  | begin => exact nomatch hm
  | take => exact nomatch hm
  | handle => exact nomatch hm
  | expire => exact nomatch hm
  | tick => exact nomatch hm
  | finish => exact nomatch hm
  | wait => exact nomatch hm

/-- What the worker does, its calls of the callback included, moves no thread. -/
theorem worker_moves {t t' : Threads} {m : Move} (hm : m.thread? = none)
    (h : t.step m = some t') : t'.points = t.points ∧ t'.joinable = t.joinable := by
  cases step_cases h with
  | load => exact nomatch hm
  | send => exact nomatch hm
  | close => exact nomatch hm
  | claim => exact nomatch hm
  | joined => exact nomatch hm
  | leave => exact nomatch hm
  | begin => exact ⟨rfl, rfl⟩
  | take => exact ⟨rfl, rfl⟩
  | handle => exact ⟨rfl, rfl⟩
  | expire => exact ⟨rfl, rfl⟩
  | tick => exact ⟨rfl, rfl⟩
  | finish => exact ⟨rfl, rfl⟩
  | wait => exact ⟨rfl, rfl⟩

/-- A move changes the point of one thread, or of none. -/
theorem step_points {t t' : Threads} {m : Move} (h : t.step m = some t') :
    t'.points = t.points ∨ ∃ i p q, Passes t i m p q ∧ t.points[i]? = some p ∧
      t'.points = t.points.set i q := by
  cases hm : m.thread? with
  | none => exact .inl (worker_moves hm h).1
  | some i =>
      obtain ⟨p, q, hk, hp, hs⟩ := step_thread h hm
      exact .inr ⟨i, p, q, hk, hp, hs⟩

/-- A thread does not get hold of the entrance except by finding it there. -/
theorem Passes.holds {t : Threads} {i : Nat} {m : Move} {p q : Point} (h : Passes t i m p q)
    (hq : q.holds = true) : p.holds = true ∨ t.relay.isOpen = true := by
  cases h with
  | load e => exact .inr hq
  | send e holds closes =>
      cases closes with
      | false => exact .inl hq
      | true => exact .inl hq
  | close => exact absurd hq Bool.false_ne_true
  | claim holds waits =>
      cases waits with
      | false => exact .inl hq
      | true => exact .inl hq
  | joined holds => exact .inl hq
  | leave holds => exact absurd hq Bool.false_ne_true

/-- A thread that has looked for the entrance offers its event before anything else. -/
theorem step_loaded {t t' : Threads} {m : Move} {i : Nat} {e : Event} {holds : Bool}
    (hp : t.points[i]? = some (.loaded e holds)) (h : t.step m = some t') (hm : m ≠ .send i) :
    t'.points[i]? = some (.loaded e holds) := by
  rcases step_points h with hs | ⟨j, p, q, hk, hj, hs⟩
  · rw [hs]
    exact hp
  · by_cases hij : j = i
    -- From its point this thread can only offer the event.
    · rw [hij, hp] at hj
      cases hj
      rw [hij] at hk
      cases hk
      exact absurd rfl hm
    · rw [hs, List.getElem?_set_ne hij]
      exact hp

/-! ## Out of reach -/

/-- The entrance is empty, and no thread holds on to what it found there. -/
structure Disconnected (t : Threads) : Prop where
  isOpen : t.relay.isOpen = false
  holds : ∀ p ∈ t.points, p.holds = false

theorem disconnected_of_isConnected {t : Threads} (h : t.isConnected = false) :
    t.Disconnected := by
  rw [isConnected, Bool.or_eq_false_iff, List.any_eq_false] at h
  exact ⟨h.1, fun p hp => Bool.eq_false_iff.2 (h.2 p hp)⟩

theorem step_isOpen {t t' : Threads} {m : Move} (h : t.step m = some t')
    (ho : t.relay.isOpen = false) : t'.relay.isOpen = false :=
  (step_change h).isOpen ho

theorem Disconnected.kept {t t' : Threads} {m : Move} (hd : t.Disconnected)
    (h : t.step m = some t') : t'.Disconnected := by
  refine ⟨step_isOpen h hd.isOpen, ?_⟩
  -- A point that holds on would have held on before, or have found the entrance.
  rcases step_points h with hs | ⟨i, p, q, hk, hi, hs⟩
  · rw [hs]
    exact hd.holds
  · rw [hs]
    intro x hx
    rcases List.mem_or_eq_of_mem_set hx with hx | rfl
    · exact hd.holds x hx
    · rw [Bool.eq_false_iff]
      intro hq
      rcases hk.holds hq with hp | ho
      · exact absurd hp (Bool.eq_false_iff.1 (hd.holds p (List.mem_of_getElem? hi)))
      · exact absurd ho (Bool.eq_false_iff.1 hd.isOpen)

theorem Disconnected.accepted_nil {t : Threads} (hd : t.Disconnected) (m : Move) :
    accepted (t, m) = [] := by
  cases m with
  | send i =>
      dsimp only [accepted]
      split
      · next e holds hp =>
        have hh : holds = false := hd.holds _ (List.mem_of_getElem? hp)
        rw [hh]
        rfl
      · rfl
  | _ => rfl

theorem Disconnected.run {t t' : Threads} {future : List (Threads × Move)} (hd : t.Disconnected)
    (h : Run step t future t') : t'.Disconnected ∧ future.flatMap accepted = [] := by
  induction h with
  | start => exact ⟨hd, rfl⟩
  | @next past u v m before enabled ih =>
      refine ⟨ih.1.kept enabled, ?_⟩
      rw [List.flatMap_append, ih.2, List.flatMap_singleton, ih.1.accepted_nil]
      rfl

theorem finish_disconnected {t t' : Threads} (h : t.step .finish = some t') :
    t.relay.stage = .idle ∧ t.relay.queue = [] ∧ t.Disconnected := by
  cases step_cases h with
  | finish phase idle gone =>
      obtain ⟨hs, hq⟩ := Relay.isIdle_eq idle
      exact ⟨hs, hq, disconnected_of_isConnected gone⟩

theorem run_isOpen {t t' : Threads} {future : List (Threads × Move)}
    (h : Run step t future t') (ho : t.relay.isOpen = false) : t'.relay.isOpen = false := by
  induction h with
  | start => exact ho
  | next before enabled ih => exact step_isOpen enabled ih

theorem run_loaded {t t' : Threads} {future : List (Threads × Move)} {i : Nat} {e : Event}
    {holds : Bool} (h : Run step t future t') (hp : t.points[i]? = some (.loaded e holds))
    (hm : ∀ x ∈ future, x.2 ≠ .send i) : t'.points[i]? = some (.loaded e holds) := by
  induction h with
  | start => exact hp
  | @next past u v m before enabled ih =>
      refine step_loaded (ih fun x hx => hm x (List.mem_append_left _ hx)) enabled ?_
      exact hm (u, m) (List.mem_append_right _ (List.mem_singleton_self _))

/-- A thread that finds the entrance empty has its event turned away, whatever comes in between. -/
theorem load_refused {t t' u : Threads} {i : Nat} {e : Event} {later : List (Threads × Move)}
    (ho : t.relay.isOpen = false) (hl : t.step (.load i e) = some t') (h : Run step t' later u)
    (hm : ∀ x ∈ later, x.2 ≠ .send i) :
    ∃ u', u.step (.send i) = some u' ∧ accepted (u, .send i) = [] ∧
      Relay.RefusesClosed u.relay e u'.relay := by
  have hp : t'.points[i]? = some (.loaded e false) := by
    cases step_cases hl with
    | load i e point =>
        rw [← ho]
        exact List.getElem?_set_self (List.getElem?_eq_some_iff.1 point).1
  have hu := run_loaded h hp hm
  refine ⟨u.send i e false, ?_, ?_, Relay.refuses_refuseClosed u.relay e⟩
  · dsimp only [step]
    rw [hu]
  · dsimp only [accepted]
    rw [hu]
    rfl

theorem joined_gone {t t' : Threads} {i : Nat} (h : t.step (.joined i) = some t') :
    t.relay.isServing = false := by
  cases step_cases h with
  | joined i holds point gone => exact gone

/-! ## What is lost with the worker -/

/-- The move takes the worker down, and events wait in the queue. -/
def Loses : Threads × Move → Prop
  | (t, .begin) => t.relay.queue ≠ [] ∧ t.relay.NoNextFlush
  | (t, .handle) => t.relay.queue ≠ [] ∧ ∃ e, t.relay.stage = .holding e ∧ t.relay.Topples e
  | (t, .tick) => t.relay.queue ≠ [] ∧
      ((t.relay.transmitter.pending ≠ [] ∧ t.relay.ensureConnected.NoDeadline) ∨
        t.relay.flushed.NoNextFlush)
  | _ => False

theorem stage_send (t : Threads) (i : Nat) (e : Event) (holds : Bool) :
    (t.send i e holds).relay.stage = t.relay.stage := by
  rcases t.relay_send i e holds with h | h | h
  · rw [h]
    rfl
  · rw [h]
    rfl
  · rw [h]
    rfl

theorem loses_iff {t t' : Threads} {m : Move} (h : t.step m = some t') :
    Loses (t, m) ↔
      t.relay.queue ≠ [] ∧ t.relay.stage ≠ .crashed ∧ t'.relay.stage = .crashed := by
  have keeps (hl : ¬ Loses (t, m)) (hc : t'.relay.stage = .crashed → t.relay.stage = .crashed) :
      Loses (t, m) ↔
        t.relay.queue ≠ [] ∧ t.relay.stage ≠ .crashed ∧ t'.relay.stage = .crashed :=
    ⟨fun hx => absurd hx hl, fun hx => absurd (hc hx.2.2) hx.2.1⟩
  cases step_cases h with
  | begin phase idle =>
      have hn : t.relay.stage ≠ .crashed := fun hc => nomatch idle.symm.trans hc
      show _ ∧ _ ↔ _ ∧ _ ∧ t.relay.schedule.stage = .crashed
      rw [Relay.schedule_crashed_iff idle, and_iff_right hn]
  | handle relay handled =>
      obtain ⟨e, hs⟩ := Relay.holding_of_handle handled
      have hn : t.relay.stage ≠ .crashed := fun hc => nomatch hs.symm.trans hc
      show _ ∧ (∃ e, _ ∧ _) ↔ _ ∧ _ ∧ relay.stage = .crashed
      rw [Relay.exists_holding hs, Relay.handle_crashed_iff hs handled, and_iff_right hn]
  | tick phase idle =>
      have hn : t.relay.stage ≠ .crashed := fun hc => nomatch idle.symm.trans hc
      show _ ∧ _ ↔ _ ∧ _ ∧ t.relay.flushDue.stage = .crashed
      rw [Relay.flushDue_crashed_iff idle, and_iff_right hn]
  | finish phase idle gone =>
      have hq := (Relay.isIdle_eq idle).2
      exact ⟨nofun, fun hx => absurd hq hx.1⟩
  | load => exact keeps id id
  | send i e holds point => exact keeps id (stage_send t i e holds).symm.trans
  | close => exact keeps id id
  | claim i holds point =>
      rw [relay_claim] at keeps ⊢
      exact keeps id id
  | joined => exact keeps id id
  | leave => exact keeps id id
  | take relay phase taken =>
      obtain ⟨e, queue, -, -, rfl⟩ := Relay.take?_eq_some taken
      exact keeps id nofun
  | expire => exact keeps id id
  | wait => exact keeps id id

/-! ## Whole runs -/

variable {s : Settings} {reactions : List Reaction} {answers : List DialAnswer} {clock : Clock}
  {count : Nat} {past : List (Threads × Move)} {t : Threads}

theorem run_codec
    (h : Run step (start (.unscheduled s.withDefaults reactions answers clock) count) past t) :
    t.relay.codec = s.codec :=
  run_invariant (P := fun _ _ _ r => r.codec = s.codec) rfl
    (fun h c => (Relay.codec_eq c.terms).trans h) h

theorem run_order
    (h : Run step (start (.unscheduled s.withDefaults reactions answers clock) count) past t) :
    t.relay.Order (past.flatMap accepted) (past.flatMap encoded) :=
  run_invariant (P := fun _ accepted encoded r => Relay.Order accepted encoded r)
    (Relay.order_unscheduled s.withDefaults reactions answers clock) (fun h c => h.change c) h

theorem run_refused
    (h : Run step (start (.unscheduled s.withDefaults reactions answers clock) count) past t) :
    t.relay.Refused (past.flatMap encoded) :=
  run_invariant (P := fun _ _ encoded r => Relay.Refused encoded r)
    (Relay.refused_unscheduled s.withDefaults reactions answers clock) (fun h c => h.change c) h

/-- An accepted event is missing exactly if one of the moves took the worker down while events
waited in the queue. -/
theorem run_whole_iff
    (h : Run step (start (.unscheduled s.withDefaults reactions answers clock) count) past t) :
    past.flatMap accepted = past.flatMap encoded ++ t.relay.inHand ++ t.relay.queue ↔
      ∀ x ∈ past, ¬ Loses x :=
  Relay.changes_whole_iff relay step_change loses_iff
    (Relay.order_unscheduled s.withDefaults reactions answers clock) h

/-- Whatever the order in which threads submit events to a relay and close it: events are handed to
the encoder in the order in which they were accepted, each once; what was accepted and not handed
over is in the worker's hand or in the queue, exactly as long as no move took the worker down with
events in the queue; each event that the encoder refused is reported; the worker leaves only when
the queue is empty and nothing can get into it any more; a call that looks for the entrance after it
was emptied is refused as closed; and when the wait for the worker is over, all that was accepted
has been handed to the encoder, again exactly if no move lost what was in the queue. -/
theorem closing_loses_nothing
    (h : Run step (start (.unscheduled s.withDefaults reactions answers clock) count) past t) :
    past.flatMap encoded <+: past.flatMap accepted ∧
    (past.flatMap accepted = past.flatMap encoded ++ t.relay.inHand ++ t.relay.queue ↔
      ∀ x ∈ past, ¬ Loses x) ∧
    encodeReports t.relay.failures = Relay.refusals s.codec (past.flatMap encoded) ∧
    (∀ t', t.step .finish = some t' → t.relay.queue = [] ∧
      past.flatMap accepted = past.flatMap encoded ∧
      ∀ future u, Run step t future u → future.flatMap accepted = []) ∧
    (t.relay.isOpen = false → ∀ before u i e u' later v,
      Run step t before u → u.step (.load i e) = some u' → Run step u' later v →
      (∀ x ∈ later, x.2 ≠ .send i) →
      ∃ v', v.step (.send i) = some v' ∧ accepted (v, .send i) = [] ∧
        Relay.RefusesClosed v.relay e v'.relay) ∧
    (∀ i t', t.step (.joined i) = some t' →
      (past.flatMap accepted = past.flatMap encoded ↔ ∀ x ∈ past, ¬ Loses x) ∧
      (t.relay.stage = .ended ∧ past.flatMap accepted = past.flatMap encoded ∨
        t.relay.stage = .crashed ∧ ((∃ e, s.codec e = .crashed) ∨ t.relay.Late))) := by
  have ho := run_order h
  have hcodec := run_codec h
  have hwhole := run_whole_iff h
  refine ⟨ho.served, hwhole, hcodec ▸ run_refused h, fun t' hf => ?_, ?_, fun i t' hj => ?_⟩
  · obtain ⟨hs, hq, hd⟩ := finish_disconnected hf
    exact ⟨hq, ho.drained_idle hs hq, fun future u hu => (hd.run hu).2⟩
  · intro hopen before u i e u' later v hbefore hload hlater hm
    exact load_refused (run_isOpen hbefore hopen) hload hlater hm
  · have hg := joined_gone hj
    rw [Relay.inHand_gone hg, ho.drained hg, List.append_nil, List.append_nil] at hwhole
    rcases Relay.stage_of_gone hg with he | hc
    · exact ⟨hwhole, .inl ⟨he, ho.ended he⟩⟩
    · exact ⟨hwhole, .inr ⟨hc, ho.fatal hcodec hc⟩⟩

/-- One thread finds the entrance, another one empties it, and then the first one offers its
event. -/
def race : Option (List (Threads × Move) × Threads) :=
  Run.follow step (start (.unscheduled Relay.cramped.withDefaults [] [] ⟨0, []⟩) 2)
    [.begin, .load 0 Relay.sample, .close 1, .send 0, .claim 1, .leave 0, .take, .handle, .finish]

theorem closing_loses_nothing_race : ∃ past t t',
    Run step (start (.unscheduled Relay.cramped.withDefaults [] [] ⟨0, []⟩) 2) past t ∧
    t.step (.joined 1) = some t' ∧ (past.flatMap accepted).length = 1 ∧
    past.flatMap accepted = past.flatMap encoded := by
  have hsome : race.isSome = true := by decide +kernel
  have hend : race.map (fun run => run.2.relay.hasEnded) = some true := by decide +kernel
  have hcount : race.map (fun run => (run.1.flatMap accepted).length) = some 1 := by
    decide +kernel
  have hjoin : race.map (fun run => (run.2.step (.joined 1)).isSome) = some true := by
    decide +kernel
  obtain ⟨⟨past, t⟩, hr⟩ := Option.isSome_iff_exists.1 hsome
  rw [hr] at hend hcount hjoin
  have h := Run.of_follow hr
  obtain ⟨t', ht⟩ := Option.isSome_iff_exists.1 (Option.some.inj hjoin)
  obtain ⟨-, -, -, -, -, hjoined⟩ := closing_loses_nothing h
  refine ⟨past, t, t', h, ht, Option.some.inj hcount, ?_⟩
  have hstage := Relay.stage_of_hasEnded (Option.some.inj hend)
  rcases (hjoined 1 t' ht).2 with ⟨-, hall⟩ | ⟨hc, -⟩
  · exact hall
  · exact absurd (hstage.symm.trans hc) Stage.noConfusion

/-- A flush after each event, before a deadline that lies out of reach. -/
def boundless : Settings :=
  { Settings.ofTarget (fun _ => .done [1]) "udp" "localhost" with
    bufferSize := 1
    writeTimeout := .longest }

/-- Two events are accepted, and the flush of the first one takes the worker down. -/
def downfall : Option (List (Threads × Move) × Threads) :=
  Run.follow step (start (.unscheduled boundless.withDefaults [] [] ⟨0, []⟩) 2)
    [.begin, .load 0 Relay.sample, .send 0, .leave 0, .load 0 Relay.sample, .send 0, .leave 0, .close 1,
      .claim 1, .take, .handle]

theorem closing_loses_unreachable_deadline : ∃ past t t',
    Run step (start (.unscheduled boundless.withDefaults [] [] ⟨0, []⟩) 2) past t ∧
    t.step (.joined 1) = some t' ∧ (∀ e, boundless.codec e ≠ .crashed) ∧
    (past.flatMap accepted).length = 2 ∧ (past.flatMap encoded).length = 1 ∧
    t.relay.failures.length = 0 := by
  have hsome : downfall.isSome = true := by decide +kernel
  have hcounts : downfall.map (fun run => ((run.1.flatMap accepted).length,
      (run.1.flatMap encoded).length, run.2.relay.failures.length)) = some (2, 1, 0) := by
    decide +kernel
  have hjoin : downfall.map (fun run => (run.2.step (.joined 1)).isSome) = some true := by
    decide +kernel
  obtain ⟨⟨past, t⟩, hr⟩ := Option.isSome_iff_exists.1 hsome
  rw [hr] at hcounts hjoin
  obtain ⟨t', ht⟩ := Option.isSome_iff_exists.1 (Option.some.inj hjoin)
  have hc := Option.some.inj hcounts
  exact ⟨past, t, t', Run.of_follow hr, ht, fun _ => nofun, congrArg (·.1) hc,
    congrArg (·.2.1) hc, congrArg (·.2.2) hc⟩

end Threads
end Telemetry
