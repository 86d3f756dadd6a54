import Telemetry.Proofs.Relay.Agreement
import Telemetry.Proofs.Relay.Waiting
/-!
A relay whose encoder has crashed.

The crash takes the worker down with the event in hand, the queue and what was gathered. What was
flushed before stays as it is. From then on the relay does nothing of its own: it dials nothing and
calls no connection, every event that is offered to it is turned away as closed, and whoever closes
it need not wait.
-/

namespace Telemetry
/-! ## The crash -/

namespace Transmitter

theorem retired_disconnect {t : Transmitter} {s : Sink} (h : t.connection = some s) :
    t.disconnect.retired = t.retired ++ [s.drop] := by
  rw [disconnect, h, Option.map_some, Option.toList_some]

theorem flushed_disconnect {t : Transmitter} {s : Sink} (h : t.connection = some s) :
    t.disconnect.flushed = t.retired.flatMap Sink.blocks ++ s.blocks := by
  rw [flushed_retired rfl, retired_disconnect h, List.flatMap_append, List.flatMap_singleton,
    Sink.blocks_drop]

theorem contents_disconnect {t : Transmitter} {s : Sink} (h : t.connection = some s) :
    t.disconnect.connections.map Sink.content = t.retired.map Sink.content ++ [s.content] := by
  rw [connections_retired rfl, retired_disconnect h, List.map_append, List.map_singleton,
    Sink.content_drop]

end Transmitter

namespace Relay

/-- What the crash leaves. The worker may have dialed for the event that it had in hand; the new
connection got nothing. -/
structure Falls (r r' : Relay) : Prop where
  stage : r'.stage = .crashed
  queue : r'.queue = []
  connection : r'.transmitter.connection = none
  pending : r'.transmitter.pending = r.transmitter.pending
  flushed : r'.transmitter.flushed = r.transmitter.flushed
  contents : r'.transmitter.connections.map Sink.content =
    r.transmitter.connections.map Sink.content ++
      if r.transmitter.connection.isSome then [] else [[]]
  counters : ∃ established dialFailed, r'.transmitter.counters =
    { r.transmitter.counters with established, dialFailed }
  reports : ∃ fs, r'.failures = r.failures ++ fs ∧ ∀ f ∈ fs, f.kind = .dial
  undialed : r.transmitter.connection.isSome = true →
    r'.dials = r.dials ∧ r'.failures = r.failures

theorem handle?_crashed {r : Relay} {e : Event} (hs : r.stage = .holding e)
    (hc : r.codec e = .crashed) :
    r.handle? = some { r with stage := .idle }.ensureConnected.crash := by
  have codec : { r with stage := .idle }.ensureConnected.codec e = .crashed := by
    rw [codec_eq (works_ensureConnected _).terms]
    exact hc
  rw [handle?_holding hs, codec]
  rfl

theorem falls_crash {r : Relay} : Falls r { r with stage := .idle }.ensureConnected.crash := by
  rcases ensureConnected_cases { r with stage := .idle } with ⟨s, hs, he⟩ | ⟨hn, s, hp, hd⟩
  · have hs : r.transmitter.connection = some s := hs
    rw [he]
    refine ⟨rfl, rfl, rfl, rfl, ?_, ?_, ⟨_, _, rfl⟩,
      ⟨[], (List.append_nil _).symm, fun f hf => absurd hf List.not_mem_nil⟩, fun _ => ⟨rfl, rfl⟩⟩
    · rw [Transmitter.flushed_connected hs]
      exact Transmitter.flushed_disconnect hs
    · rw [Transmitter.connections_connected hs, hs, List.map_append, List.append_assoc]
      exact Transmitter.contents_disconnect hs
  · have hn : r.transmitter.connection = none := hn
    obtain ⟨dialFailed, clock, ht⟩ := hd.transmitter
    generalize { r with stage := .idle }.ensureConnected = q at hd ht
    have hs : q.transmitter.connection = some s := by rw [ht]
    have hr : q.transmitter.retired = r.transmitter.retired := by rw [ht]
    refine ⟨rfl, rfl, rfl, ?_, ?_, ?_, ⟨r.transmitter.counters.established + 1, dialFailed, ?_⟩,
      hd.reports, fun hs => ?_⟩
    · show q.transmitter.pending = _
      rw [ht]
    · rw [Transmitter.flushed_retired hn, ← hr,
        ← List.append_nil (q.transmitter.retired.flatMap Sink.blocks),
        ← Sink.blocks_of_past_nil hp]
      exact Transmitter.flushed_disconnect hs
    · have hc : s.content = [] := by
        rw [Sink.content, Sink.log, hp]
        rfl
      rw [Transmitter.connections_retired hn, hn, ← hr, ← hc]
      exact Transmitter.contents_disconnect hs
    · show q.transmitter.counters = _
      rw [ht]
    · rw [hn] at hs
      exact absurd hs Bool.false_ne_true

/-! ## After the crash -/

/-- The report of an event that was turned away as closed. -/
def closedReport (e : Event) : Failure := .queueClosed e.metric.name

/-- All that changes while no worker is there: each of these events is counted and reported as
turned away, the entrance may be emptied, and time passes. -/
structure Bereft (r : Relay) (offered : List Event) (r' : Relay) : Prop where
  kept : ∃ isOpen reporter clock, r' =
    { r with
      isOpen
      reporter
      transmitter := { r.transmitter with
        counters := { r.transmitter.counters with
          queueClosed :=
            r.transmitter.counters.queueClosed + UInt64.ofNat offered.length }
        clock } }
  reports : r'.failures = r.failures ++ offered.map closedReport

namespace Bereft

variable {r r' r'' : Relay} {offered offered' : List Event}

/-- No event was offered. -/
theorem quiet {isOpen : Bool} {clock : Clock}
    (h : r' = { r with isOpen, transmitter := { r.transmitter with clock } }) :
    Bereft r [] r' where
  kept := by
    refine ⟨isOpen, r.reporter, clock, ?_⟩
    rw [h]
    simp
  reports := by
    rw [h, List.map_nil, List.append_nil]
    rfl

theorem refl (r : Relay) : Bereft r [] r := quiet rfl

theorem trans (h : Bereft r offered r') (k : Bereft r' offered' r'') :
    Bereft r (offered ++ offered') r'' where
  kept := by
    obtain ⟨_, _, _, rfl⟩ := h.kept
    obtain ⟨isOpen, reporter, clock, rfl⟩ := k.kept
    refine ⟨isOpen, reporter, clock, ?_⟩
    rw [List.length_append, UInt64.ofNat_add, ← UInt64.add_assoc]
  reports := by
    rw [k.reports, h.reports, List.map_append, List.append_assoc]

theorem refuseClosed (r : Relay) (e : Event) : Bereft r [e] (r.refuseClosed e) :=
  ⟨⟨_, _, r.clock, rfl⟩, rfl⟩

theorem stage (h : Bereft r offered r') : r'.stage = r.stage := by
  obtain ⟨_, _, _, rfl⟩ := h.kept
  rfl

theorem refusesClosed {e : Event} (h : Bereft r [e] r') : RefusesClosed r e r' := by
  have reports := h.reports
  obtain ⟨_, _, _, rfl⟩ := h.kept
  exact ⟨rfl, rfl, reports⟩

end Bereft

/-- A worker that is down takes part in no change any more. -/
theorem Change.bereft {r r' : Relay} {offered accepted encoded : List Event}
    (c : Change r offered accepted encoded r') (h : r.stage = .crashed) : Bereft r offered r' := by
  have busy (hs : r.isServing = true) : False :=
    absurd ((isServing_crashed h).symm.trans hs) Bool.false_ne_true
  have idle (hs : r.stage = .idle) : False := busy (isServing_idle hs)
  cases c with
  | accept e serving => exact (busy serving).elim
  | refuseFull e serving => exact (busy serving).elim
  | take e queue hi => exact (idle hi).elim
  | handle e holding => exact (busy (isServing_holding holding)).elim
  | schedule hi => exact (idle hi).elim
  | flush hi => exact (idle hi).elim
  | windUp hi => exact (idle hi).elim
  | refuseClosed e => exact .refuseClosed r e
  | stay => exact .refl r
  | close => exact .quiet rfl
  | wait => exact .quiet rfl

end Relay

namespace Threads

/-- What each thread does is turned away or leaves the relay alone, and the worker does nothing. -/
theorem run_bereft {t u : Threads} {future : List (Threads × Move)} (h : Run step t future u)
    (hc : t.relay.stage = .crashed) :
    Relay.Bereft t.relay (future.flatMap offered) u.relay ∧ future.flatMap accepted = [] ∧
      future.flatMap encoded = [] := by
  refine run_invariant
    (P := fun offered accepted encoded r => Relay.Bereft t.relay offered r ∧ accepted = [] ∧
      encoded = []) ⟨.refl _, rfl, rfl⟩ (fun {o a e r o' a' e' r'} h c => ?_) h
  obtain ⟨hb, rfl, rfl⟩ := h
  have down : r.stage = .crashed := hb.stage.trans hc
  obtain ⟨-, -, rfl, rfl⟩ := c.down down
  exact ⟨hb.trans (c.bereft down), rfl, rfl⟩

/-- An event is turned away as closed, whether or not its thread found the entrance. -/
theorem send_bereft {t : Threads} {i : Nat} {e : Event} {holds : Bool}
    (hc : t.relay.stage = .crashed) (hp : t.points[i]? = some (.loaded e holds)) :
    ∃ t', t.step (.send i) = some t' ∧ Relay.RefusesClosed t.relay e t'.relay := by
  have enabled := (Steps.send i e holds hp).enabled
  have hb := (step_change enabled).bereft hc
  simp only [offered, hp] at hb
  exact ⟨_, enabled, hb.refusesClosed⟩

/-! ## Calls that come to their ends -/

/-- How many moves a thread has left in its call at most, if it waits for nobody. -/
def remaining : Point → Nat
  | .outside => 0
  | .loaded _ _ => 4
  | .emptied _ => 3
  | .joining _ => 2
  | .leaving _ => 1

theorem Passes.remaining_lt {t : Threads} {i : Nat} {m : Move} {p q : Point}
    (h : Passes t i m p q) (hp : p ≠ .outside) : remaining q < remaining p := by
  cases h with
  | load e => exact absurd rfl hp
  | close => exact absurd rfl hp
  | send e holds closes => cases closes <;> simp [remaining]
  | claim holds waits => cases waits <;> simp [remaining]
  | joined holds => simp [remaining]
  | leave holds => simp [remaining]

theorem remaining_le (p : Point) : remaining p ≤ 4 := by
  cases p <;> simp [remaining]

/-- The thread can go on in its call. Each move that it makes brings it nearer to the end of the
call, and the moves of the others leave it where it is. -/
def Proceeds (t : Threads) (i : Nat) (p : Point) : Prop :=
  (∃ m t', m.thread? = some i ∧ t.step m = some t') ∧
  ∀ m t', t.step m = some t' → ∃ q, t'.points[i]? = some q ∧
    (m.thread? = some i ∧ remaining q < remaining p ∨ m.thread? ≠ some i ∧ q = p)

/-- A thread in a call goes on without waiting, once the worker is gone. -/
theorem gone_moves {t : Threads} {i : Nat} {p : Point} (hg : t.relay.isServing = false)
    (hp : t.points[i]? = some p) : ∃ m t', m.thread? = some i ∧ t.step m = some t' := by
  cases hj : p.isJoining with
  | false => exact thread_moves hp hj
  | true =>
      cases p with
      | joining holds => exact ⟨.joined i, _, rfl, (Steps.joined i holds hp hg).enabled⟩
      | outside => exact nomatch hj
      | loaded e holds => exact nomatch hj
      | emptied holds => exact nomatch hj
      | leaving holds => exact nomatch hj

theorem step_remaining {t t' : Threads} {m : Move} {i : Nat} {p : Point} (h : t.step m = some t')
    (hp : t.points[i]? = some p) (ho : p ≠ .outside) :
    ∃ q, t'.points[i]? = some q ∧
      (m.thread? = some i ∧ remaining q < remaining p ∨ m.thread? ≠ some i ∧ q = p) := by
  by_cases hm : m.thread? = some i
  · obtain ⟨x, q, hk, hx, hs⟩ := step_thread h hm
    cases hx.symm.trans hp
    refine ⟨q, ?_, .inl ⟨hm, hk.remaining_lt ho⟩⟩
    rw [hs]
    exact List.getElem?_set_self (List.getElem?_eq_some_iff.1 hp).1
  · refine ⟨p, ?_, .inr ⟨hm, rfl⟩⟩
    rcases step_points h with hs | ⟨j, x, q, hk, -, hs⟩
    · rw [hs]
      exact hp
    · have hj : j ≠ i := fun hj => hm (hj ▸ hk.thread?)
      rw [hs, List.getElem?_set_ne hj]
      exact hp

/-- The moves of one call that closes the relay. -/
def closing (i : Nat) (waits : Bool) : List Move :=
  .close i :: .claim i :: if waits then [.joined i, .leave i] else [.leave i]

/-- Without a worker a call that closes the relay comes to its end by its own moves. -/
theorem closing_returns {t : Threads} {i : Nat} (hg : t.relay.isServing = false)
    (hp : t.points[i]? = some .outside) :
    ∃ past t', Run step t past t' ∧ past.map (·.2) = closing i t.joinable ∧
      t'.points = t.points ∧ t'.relay = t.relay.close := by
  obtain ⟨hl, ho⟩ := List.getElem?_eq_some_iff.1 hp
  have back : t.points.set i .outside = t.points := by
    rw [← ho]
    exact List.set_getElem_self hl
  have here (v : Threads) (q : Point) (hv : v.points.length = t.points.length) :
      (v.moveTo i q).points[i]? = some q := List.getElem?_set_self (hv ▸ hl)
  let closed : Threads := { t.moveTo i (.emptied false) with relay := t.relay.close }
  have hc : closed.points.length = t.points.length := List.length_set
  have run := (Run.start.next (Steps.close i hp).enabled).next
    (Steps.claim (t := closed) i false (here t _ rfl)).enabled
  cases hj : t.joinable with
  | true =>
      let waiting : Threads := { closed.moveTo i (.joining false) with joinable := false }
      have hw : waiting.points.length = t.points.length := List.length_set.trans hc
      have claimed : closed.claim i false = waiting := if_pos hj
      rw [claimed] at run
      have joined := run.next (Steps.joined (t := waiting) i false (here closed _ hc) hg).enabled
      have left := joined.next (Steps.leave i false (here waiting _ hw)).enabled
      exact ⟨_, _, left, rfl, by simp only [waiting, closed, moveTo, List.set_set, back], rfl⟩
  | false =>
      have claimed : closed.claim i false = closed.moveTo i (.leaving false) :=
        if_neg (Bool.eq_false_iff.1 hj)
      rw [claimed] at run
      have left := run.next (Steps.leave i false (here closed _ hc)).enabled
      exact ⟨_, _, left, rfl, by simp only [closed, moveTo, List.set_set, back], rfl⟩

/-- The thread can close the relay so many times, one call after the other, by its own moves alone,
and nothing is reported. -/
def Closes (t : Threads) (i n : Nat) : Prop :=
  ∃ (waits : List Bool) (past : List (Threads × Move)) (t' : Threads), waits.length = n ∧
    Run step t past t' ∧ past.map (·.2) = waits.flatMap (closing i) ∧ t'.points = t.points ∧
    t'.relay.failures = t.relay.failures

theorem gone_closes {t : Threads} {i : Nat} (hg : t.relay.isServing = false)
    (hp : t.points[i]? = some .outside) (n : Nat) : t.Closes i n := by
  induction n generalizing t with
  | zero => exact ⟨[], [], t, rfl, .start, rfl, rfl, rfl⟩
  | succ n ih =>
      obtain ⟨first, u, hu, hm, hq, hr⟩ := closing_returns hg hp
      obtain ⟨waits, later, v, hn, hv, hl, hw, hf⟩ := ih (t := u) (hr ▸ hg) (hq ▸ hp)
      refine ⟨t.joinable :: waits, first ++ later, v, ?_, hu.trans hv, ?_, hw.trans hq, ?_⟩
      · rw [List.length_cons, hn]
      · rw [List.map_append, hm, hl, List.flatMap_cons]
      · rw [hf, hr]
        rfl

/-! ## Whole runs -/

variable {s : Settings} {reactions : List Reaction} {answers : List DialAnswer} {clock : Clock}
  {count : Nat} {past : List (Threads × Move)} {t : Threads}

/-- Whatever the order in which threads submit events to a relay and close it: when the encoder
crashes on the event in the worker's hand, the events before it were encoded in their order, and
their bytes were flushed or gathered. What was flushed stays as it is; what was gathered and what is
in the queue is lost, and nothing is reported about it. From then on no event is accepted or
encoded, no connection is dialed or called, and all that changes is that the events offered are
turned away as closed, each with one count and one report, whether or not the relay was closed.
Whoever is in a call can come to its end by at most four moves of its own, whatever the others do,
and the relay can be closed any number of times. -/
theorem fail_stop
    (h : Run step (start (.unscheduled s.withDefaults reactions answers clock) count) past t)
    {e : Event} (hs : t.relay.stage = .holding e) (hc : s.codec e = .crashed) :
    past.flatMap accepted = past.flatMap encoded ++ e :: t.relay.queue ∧
    (Relay.chunks s.codec (past.flatMap encoded)).flatten =
      t.relay.transmitter.flushed.flatten ++ t.relay.transmitter.pending ∧
    ∃ t', t.step .handle = some t' ∧ t.relay.Falls t'.relay ∧
      ∀ future u, Run step t' future u →
        t'.relay.Bereft (future.flatMap offered) u.relay ∧
        future.flatMap accepted = [] ∧ future.flatMap encoded = [] ∧
        (∀ i f holds, u.points[i]? = some (.loaded f holds) →
          ∃ u', u.step (.send i) = some u' ∧ Relay.RefusesClosed u.relay f u'.relay) ∧
        (∀ i p, u.points[i]? = some p → p ≠ .outside → remaining p ≤ 4 ∧ u.Proceeds i p) ∧
        ∀ i n, u.points[i]? = some Point.outside → u.Closes i n := by
  have codec := run_codec h
  have order := (run_order h).whole fun hn => nomatch hs.symm.trans hn
  obtain ⟨rest, ledger⟩ := run_shipped h
  have handled := Relay.handle?_crashed hs (codec ▸ hc)
  have falls : t.relay.Falls _ := Relay.falls_crash
  refine ⟨?_, codec ▸ ledger.flatten, _, (Steps.handle _ handled).enabled, falls,
    fun future u hu => ?_⟩
  · rw [order, Relay.inHand_holding hs, List.append_assoc, List.singleton_append]
  obtain ⟨hb, ha, he⟩ := run_bereft hu falls.stage
  have crashed : u.relay.stage = .crashed := hb.stage.trans falls.stage
  have gone := Relay.isServing_crashed crashed
  exact ⟨hb, ha, he, fun i f holds hp => send_bereft crashed hp,
    fun i p hp ho => ⟨remaining_le p, gone_moves gone hp, fun m u' hm => step_remaining hm hp ho⟩,
    fun i n hp => gone_closes gone hp n⟩

/-- An encoder that crashes on one metric, and a flush for every second event. -/
def fragile : Settings :=
  { Settings.ofTarget
      (fun e => if e.metric.name = "cursed" then .crashed else .done [1, 2]) "udp" "localhost" with
    bufferSize := 3 }

def cursed : Event := ⟨.ofName "cursed", .set .zero⟩

/-- A whole call that submits an event. -/
def submitting (i : Nat) (e : Event) : List Move := [.load i e, .send i, .leave i]

/-- The worker has sent one event and gathered another one when it comes to the cursed one; a
further one is in the queue, and a second thread has found the entrance. -/
def struck : Option (List (Threads × Move) × Threads) :=
  Run.follow step (start (.unscheduled fragile.withDefaults [] [] ⟨0, []⟩) 2)
    ([.begin] ++ submitting 0 Relay.sample ++ submitting 0 Relay.sample ++ submitting 0 cursed ++
      submitting 0 Relay.sample ++ [.load 1 Relay.sample, .take, .handle, .take, .handle, .take])

/-- After the crash both threads submit an event, one closes the relay, and the other one submits a
further event. -/
def aftermath : Option (List (Threads × Move) × Threads) :=
  struck.bind fun run => (run.2.step .handle).bind fun t =>
    Run.follow step t
      ([.send 1, .leave 1] ++ submitting 0 cursed ++ closing 0 true ++ submitting 1 Relay.sample)

theorem holding_of_inHand {r : Relay} {e : Event} (h : r.inHand = [e]) :
    r.stage = .holding e := by
  unfold Relay.inHand at h
  split at h
  · next f hs => rw [hs, List.singleton_inj.1 h]
  · exact nomatch h

theorem outside_of_remaining {p : Point} (h : remaining p = 0) : p = .outside := by
  cases p with
  | outside => rfl
  | loaded e holds => exact nomatch h
  | emptied holds => exact nomatch h
  | joining holds => exact nomatch h
  | leaving holds => exact nomatch h

theorem fail_stop_cursed : ∃ past t e t' future u,
    Run step (start (.unscheduled fragile.withDefaults [] [] ⟨0, []⟩) 2) past t ∧
    t.relay.stage = .holding e ∧ fragile.codec e = .crashed ∧ t.step .handle = some t' ∧
    t'.relay.transmitter.flushed = [[1, 2]] ∧ t'.relay.transmitter.pending = [1, 2] ∧
    Run step t' future u ∧ t'.relay.Bereft (future.flatMap offered) u.relay ∧
    u.relay.failures.map Failure.message =
      ["discarding requests because the metric queue was closed",
        "discarding cursed because the metric queue was closed",
        "discarding requests because the metric queue was closed"] ∧ u.Closes 0 2 := by
  have hsome : struck.isSome = true := by decide +kernel
  have hafter : aftermath.isSome = true := by decide +kernel
  have hhand : struck.map (fun run => run.2.relay.inHand.map (·.metric.name)) =
      some ["cursed"] := by decide +kernel
  have hbytes : struck.map (fun run =>
      (run.2.relay.transmitter.flushed, run.2.relay.transmitter.pending)) =
      some ([[1, 2]], [1, 2]) := by decide +kernel
  have hpoints : aftermath.map (fun run => run.2.points.map remaining) = some [0, 0] := by
    decide +kernel
  have hmessages : aftermath.map (fun run => run.2.relay.failures.map Failure.message) =
      some ["discarding requests because the metric queue was closed",
        "discarding cursed because the metric queue was closed",
        "discarding requests because the metric queue was closed"] := by decide +kernel
  obtain ⟨⟨past, t⟩, hr⟩ := Option.isSome_iff_exists.1 hsome
  rw [hr] at hhand hbytes
  have h := Run.of_follow hr
  obtain ⟨e, others, hin, hname, hnone⟩ := List.map_eq_cons_iff.1 (Option.some.inj hhand)
  rw [List.map_eq_nil_iff.1 hnone] at hin
  have hs := holding_of_inHand hin
  have hc : fragile.codec e = .crashed := if_pos hname
  obtain ⟨-, -, t', handled, falls, later⟩ := fail_stop h hs hc
  obtain ⟨⟨future, u⟩, hu⟩ := Option.isSome_iff_exists.1 hafter
  rw [hu] at hpoints hmessages
  rw [aftermath, hr, Option.bind_some, handled, Option.bind_some] at hu
  obtain ⟨bereft, -, -, -, -, closes⟩ := later future u (Run.of_follow hu)
  obtain ⟨p, ps, hp, hzero, -⟩ := List.map_eq_cons_iff.1 (Option.some.inj hpoints)
  have houtside : u.points[0]? = some Point.outside := by
    rw [hp, ← outside_of_remaining hzero]
    rfl
  have hb := Option.some.inj hbytes
  exact ⟨past, t, e, t', future, u, h, hs, hc, handled,
    falls.flushed.trans (congrArg (·.1) hb), falls.pending.trans (congrArg (·.2) hb),
    Run.of_follow hu, bereft, Option.some.inj hmessages, closes 0 2 houtside⟩

end Threads
end Telemetry
