import Telemetry.Proofs.Relay.Entries
import Telemetry.Proofs.Relay.Closing
import Telemetry.Proofs.Statsd.Lines
/-!
How far ahead of the clock settings can reach.

A clock counts seconds in 63 bits, and a span of time has 64 bits for them. Groups of numbers and
units are counted in nanoseconds, so they stay well within the clock's range. A number of seconds
without a unit need not, and it is the only thing in accepted settings that takes a worker down.
-/

namespace Telemetry

/-- The latest reading of a clock that is asked for. -/
def Moment.latest : Nat := 2 ^ 40 * nanosPerSecond

/-- Whole seconds from here on lead beyond the clock's range, from the latest reading. -/
def Duration.reach : Nat := 2 ^ 63 - 2 ^ 40

/-- A clock can show the moment that lies this span ahead, from any reading up to the latest. -/
def Duration.Near (d : Duration) : Prop :=
  ∀ now ≤ Moment.latest, (Moment.after? now d).isSome

theorem Duration.near_iff {d : Duration} : d.Near ↔ d.nanos < reach * nanosPerSecond := by
  have hsum : Moment.horizon = reach * nanosPerSecond + Moment.latest := by decide
  have hsome {now : Nat} :
      (Moment.after? now d).isSome ↔ now + d.nanos < Moment.horizon := by
    rw [← Option.ne_none_iff_isSome, Ne, Moment.after?_eq_none, Nat.not_le]
  constructor
  · intro h
    have hl := hsome.1 (h Moment.latest (Nat.le_refl _))
    omega
  · intro h now hn
    rw [hsome]
    omega

theorem Duration.near_zero : zero.Near := near_iff.2 (by decide)

theorem Duration.near_ofSeconds_iff {n : Nat} : (ofSeconds n).Near ↔ n < reach := by
  rw [near_iff, ofSeconds, nanos_clamp]
  show min (n * 10 ^ 9) (2 ^ 64 * 10 ^ 9 - 1) < (2 ^ 63 - 2 ^ 40) * 10 ^ 9 ↔ n < 2 ^ 63 - 2 ^ 40
  omega

namespace Interval

open Decimal Text

/-! ## Spans of time in texts -/

theorem Means.near_iff_of_digits {s : String} {d : Duration} (h : Means s d) (hd : Digits s.toList) :
    d.Near ↔ Nat.ofDigitChars 10 s.toList 0 < Duration.reach := by
  have hn : d.nanos = Nat.ofDigitChars 10 s.toList 0 * nanosPerSecond := by
    rcases h with ⟨ht, hz⟩ | ⟨hs, -⟩ | ⟨-, -, -, hn⟩
    · rw [trim_digits hd] at ht
      rw [ht, hz]
      rfl
    · rw [trim_digits hd] at hs
      exact absurd hd hs.not_digits
    · exact hn
  rw [Duration.near_iff, hn]
  exact Nat.mul_lt_mul_right (by decide)

/-- What is counted in nanoseconds is near. -/
theorem Means.near {s : String} {d : Duration} (h : Means s d) (hd : ¬ Digits s.toList) : d.Near := by
  have hl : 2 ^ 64 ≤ Duration.reach * nanosPerSecond := by decide
  rw [Duration.near_iff]
  rcases h with ⟨-, hz⟩ | ⟨-, hlt⟩ | ⟨-, hdigits, -⟩
  · rw [hz]
    decide
  · exact Nat.lt_of_lt_of_le hlt hl
  · exact absurd hdigits hd

end Interval

namespace Settings

open Decimal Telemetry.Interval Text

/-- A number of seconds without a unit. -/
inductive Seconds : Yaml → Nat → Prop
  | integer (n : Nat) : Seconds (.integer n) n
  | text {s : String} (digits : Digits s.toList) :
      Seconds (.text s) (Nat.ofDigitChars 10 s.toList 0)

theorem Seconds.eq_of_integer {i : Int} {n : Nat} (h : Seconds (.integer i) n) : i = n := by
  generalize hv : Yaml.integer i = v at h
  cases h with
  | integer n => exact Yaml.integer.inj hv
  | text => exact nomatch hv

/-- The last entry for the setting is a number of seconds that is out of reach. -/
def Distant (k : Key) (v : Yaml) : Prop :=
  ∃ es e n, v = .mapping es ∧ Last k es e ∧ Seconds e.2 n ∧ Duration.reach ≤ n

/-! ## Spans of time in entries -/

/-- A value for a span is near unless it is a large number of seconds without a unit. -/
theorem near_iff_of_converts {v : Yaml} {d : Duration} (h : Converts .span v (.span d)) :
    d.Near ↔ ∀ n, Seconds v n → n < Duration.reach := by
  cases h with
  | seconds n =>
      rw [Duration.near_ofSeconds_iff]
      refine ⟨fun hn m hm => ?_, fun hn => hn n (.integer n)⟩
      exact Int.ofNat.inj hm.eq_of_integer ▸ hn
  | @interval s _ means =>
      by_cases hd : Digits s.toList
      · rw [Means.near_iff_of_digits means hd]
        refine ⟨fun hn m hm => ?_, fun hn => hn _ (.text hd)⟩
        cases hm
        exact hn
      · refine ⟨fun _ m hm => ?_, fun _ => Means.near means hd⟩
        cases hm with
        | text digits => exact absurd digits hd

theorem near_iff_of_gives {k : Key} {es : List (Yaml × Yaml)} {d : Duration} (hk : k.kind = .span)
    (h : Gives k es (.span d)) : d.Near ↔ ¬ Distant k (.mapping es) := by
  cases h with
  | @last e last converts =>
      rw [hk] at converts
      rw [near_iff_of_converts converts]
      constructor
      · rintro hn ⟨_, e', n, hes, last', seconds, hr⟩
        cases hes
        cases last.unique last'
        exact absurd (hn n seconds) (Nat.not_lt.2 hr)
      · intro hd n seconds
        exact Nat.lt_of_not_le fun hr => hd ⟨es, e, n, rfl, last, seconds, hr⟩
  | initial never value =>
      have hz : d = .zero := by
        cases k <;> first | exact Value.span.inj value | exact nomatch hk
      rw [hz]
      refine ⟨?_, fun _ => Duration.near_zero⟩
      rintro - ⟨_, e, n, hes, last, -⟩
      cases hes
      exact never e last.mem last.1

/-- A default is near, and it stands in for what is nearer still. -/
theorem near_spanOr_iff {d fallback : Duration} (h : fallback.Near) :
    (spanOr d fallback).Near ↔ d.Near := by
  unfold spanOr
  split
  · next hz =>
    have hn : d.nanos = 0 := of_decide_eq_true hz
    refine ⟨fun _ => ?_, fun _ => h⟩
    rw [Duration.near_iff, hn]
    decide
  · rfl

/-! ## Accepted settings -/

theorem cases_of_ofYaml {v : Yaml} {s : Settings} (h : ofYaml v = .ok s) :
    (∃ es, v = .mapping es ∧ Assembles es s) ∨
      ∃ address, v = .text address ∧ s = .ofTarget (Statsd.codec ⟨""⟩) "tcp" address := by
  cases v with
  | mapping es => exact .inl ⟨es, rfl, (complete_of_ofYaml h).2⟩
  | text address => exact .inr ⟨address, rfl, (Except.ok.inj h).symm⟩
  | _ => exact nomatch h

/-- Accepted settings encode events as lines. -/
theorem codec_of_ofYaml {v : Yaml} {s : Settings} (h : ofYaml v = .ok s) :
    ∃ scope, s.codec = Statsd.codec ⟨scope⟩ := by
  rcases cases_of_ofYaml h with ⟨es, -, scope, hc, -⟩ | ⟨address, -, rfl⟩
  · exact ⟨scope, hc⟩
  · exact ⟨"", rfl⟩

theorem not_distant_text {k : Key} {address : String} : ¬ Distant k (.text address) := by
  rintro ⟨_, _, _, h, -⟩
  exact nomatch h

/-- A setting is near, its default standing in for no time at all, unless its last entry is
distant. -/
theorem near_default_iff {v : Yaml} {s : Settings} {k : Key} {d fallback : Duration}
    (h : ofYaml v = .ok s) (hk : k.kind = .span) (hd : ∀ scope, s.value scope k = .span d)
    (hf : fallback.Near) : (spanOr d fallback).Near ↔ ¬ Distant k v := by
  rw [near_spanOr_iff hf]
  rcases cases_of_ofYaml h with ⟨es, rfl, scope, -, hv⟩ | ⟨address, rfl, rfl⟩
  · exact near_iff_of_gives hk (hd scope ▸ hv k)
  · have hz : d = .zero := by
      cases k <;> first | exact (Value.span.inj (hd "")).symm | exact nomatch hk
    exact ⟨fun _ => not_distant_text, fun _ => hz ▸ Duration.near_zero⟩

theorem near_flushInterval_iff {v : Yaml} {s : Settings} (h : ofYaml v = .ok s) :
    s.withDefaults.flushInterval.Near ↔ ¬ Distant .flushInterval v :=
  near_default_iff h rfl (fun _ => rfl) (Duration.near_ofSeconds_iff.2 (by decide))

theorem near_writeTimeout_iff {v : Yaml} {s : Settings} (h : ofYaml v = .ok s) :
    s.withDefaults.writeTimeout.Near ↔ ¬ Distant .writeTimeout v :=
  near_default_iff h rfl (fun _ => rfl) (Duration.near_ofSeconds_iff.2 (by decide))

end Settings

/-! ## Runs within reach -/

namespace Threads

variable {s : Settings} {reactions : List Reaction} {answers : List DialAnswer} {clock : Clock}
  {count : Nat} {past : List (Threads × Move)} {t : Threads}

theorem run_terms
    (h : Run step (start (.unscheduled s.withDefaults reactions answers clock) count) past t) :
    t.relay.terms = (Relay.unscheduled s.withDefaults reactions answers clock).terms :=
  run_invariant (P := fun _ _ _ r =>
      r.terms = (Relay.unscheduled s.withDefaults reactions answers clock).terms) rfl
    (fun h c => c.terms.trans h) h

/-- Spans that are near never take the worker down. -/
theorem run_near
    (h : Run step (start (.unscheduled s.withDefaults reactions answers clock) count) past t)
    (hcodec : ∀ e, s.codec e ≠ .crashed) (hf : s.withDefaults.flushInterval.Near)
    (ht : s.withDefaults.writeTimeout.Near) (hc : t.relay.clock.now ≤ Moment.latest) :
    t.relay.stage ≠ .crashed := by
  intro hs
  have hterms := run_terms h
  rcases (run_order h).fatal (run_codec h) hs with ⟨e, he⟩ | hl
  · exact hcodec e he
  · rw [Relay.Late, Relay.flushInterval_eq hterms, Relay.timeout_eq hterms] at hl
    have horizon {d : Duration} (hd : d.Near) : t.relay.clock.now + d.nanos < Moment.horizon := by
      rw [← Nat.not_le, ← Moment.after?_eq_none]
      exact Option.ne_none_iff_isSome.2 (hd _ hc)
    have hmax := Nat.max_lt.2 ⟨horizon hf, horizon ht⟩
    rw [Nat.add_max_add_left] at hmax
    exact Nat.not_le.2 hmax hl

end Threads

/-! ## Runs out of reach -/

namespace Transmitter

variable {t : Transmitter} {c : Sink}

theorem flush_late {n : Nat} (hc : t.connection = some c) (hn : n ≠ 0)
    (hl : Moment.after? t.clock.read.now t.timeout = none) :
    t.flush n = (.crashed, { t with clock := t.clock.read }) := by
  simp only [flush, hc, if_neg hn, hl]

/-- Where a flush can have no deadline, bytes are gathered as long as they are too few for one. -/
theorem write_late (name : String) {bytes : Bytes} (hc : t.connection = some c)
    (hp : t.pending = []) (hn : bytes ≠ [])
    (hl : Moment.after? t.clock.read.now t.timeout = none) :
    t.write name (.done bytes) =
      if bytes.length < t.flushSize then (.done, { t with pending := bytes })
      else (.crashed, { t with pending := bytes, clock := t.clock.read }) := by
  have hz : bytes.length ≠ 0 := fun h => hn (List.length_eq_zero_iff.1 h)
  have hf : ({ t with pending := bytes } : Transmitter).flush bytes.length =
      (.crashed, { t with pending := bytes, clock := t.clock.read }) := flush_late hc hz hl
  unfold write
  dsimp only [Encoded.bytes]
  rw [hp, List.nil_append]
  split
  · rfl
  · exact hf

end Transmitter

namespace Relay

/-- A dial call that is answered at once takes no time. -/
theorem ensureConnected_ideal {r : Relay} (ha : r.answers = []) :
    ∃ c dials counters, r.ensureConnected =
      { r with
        dials
        transmitter := { r.transmitter with connection := some c, counters } } := by
  cases hc : r.transmitter.connection with
  | some c =>
      have hr : r.ensureConnected = r := by
        unfold ensureConnected
        rw [hc]
        rfl
      exact ⟨c, r.dials, r.transmitter.counters, by rw [hr, ← hc]⟩
  | none =>
      have hr : r.ensureConnected = r.connect := by
        unfold ensureConnected
        rw [hc]
        rfl
      refine ⟨.ideal, r.dials + 1, r.transmitter.counters.addEstablished, ?_⟩
      simp [hr, connect, ha, Backoff.connect, dialStep, count, Transmitter.connect,
        Transmitter.disconnect, hc]

/-- An event that is handled where a flush can have no deadline leaves a crash, or its bytes. -/
theorem handle_late {r : Relay} {e : Event} {bytes : Bytes} (hs : r.stage = .holding e)
    (ha : r.answers = []) (hp : r.transmitter.pending = []) (hb : r.codec e = .done bytes)
    (hn : bytes ≠ []) (hl : Moment.after? r.clock.read.now r.transmitter.timeout = none) :
    ∃ r', r.handle? = some r' ∧
      (r'.stage = .crashed ∧ r'.clock = r.clock.read ∨
        r'.stage = .idle ∧ r'.queue = r.queue ∧ r'.answers = [] ∧ r'.clock = r.clock ∧
          r'.transmitter.pending = bytes ∧ r'.transmitter.timeout = r.transmitter.timeout) := by
  obtain ⟨c, dials, counters, hq⟩ := ensureConnected_ideal (r := { r with stage := .idle }) ha
  have hw := Transmitter.write_late (t := { r.transmitter with connection := some c, counters })
    e.metric.name rfl hp hn hl
  refine ⟨_, handle?_holding hs, ?_⟩
  rw [hq]
  dsimp only
  rw [hb, hw]
  split
  · exact .inr ⟨rfl, rfl, ha, rfl, rfl, rfl⟩
  · exact .inl ⟨rfl, rfl⟩

/-- The last flush can have no deadline. -/
theorem windUp_late {r : Relay} (ha : r.answers = [])
    (hp : r.transmitter.pending ≠ [])
    (hl : Moment.after? r.clock.read.now r.transmitter.timeout = none) :
    r.windUp.stage = .crashed ∧ r.windUp.clock = r.clock.read := by
  obtain ⟨c, dials, counters, hq⟩ := ensureConnected_ideal ha
  have hz : r.transmitter.pending.length ≠ 0 := fun h => hp (List.length_eq_zero_iff.1 h)
  have hlast := Transmitter.flush_late (t := { r.transmitter with connection := some c, counters })
    rfl hz hl
  have hf : r.finalFlush.stage = .crashed ∧ r.finalFlush.clock = r.clock.read := by
    unfold finalFlush
    rw [if_neg fun h => hp (List.isEmpty_iff.1 h), hq]
    dsimp only [Transmitter.flushAll]
    rw [hlast]
    exact ⟨rfl, rfl⟩
  have hw : r.windUp = r.finalFlush := by
    unfold windUp
    dsimp only
    rw [isServing_crashed hf.1]
    rfl
  rw [hw]
  exact hf

end Relay

namespace Threads

theorem send_accepted {t : Threads} {i : Nat} {e : Event} (h : t.relay.accepts = true) :
    t.send i e true = { t.moveTo i (.leaving true) with relay := t.relay.accept e } := by
  unfold send
  rw [h]
  rfl

/-- One event is enough to take the worker down where a flush can have no deadline: at once, or at
the end. -/
theorem exists_crash {r : Relay} {e : Event} {bytes : Bytes} (hs : r.stage = .idle)
    (hq : r.queue = []) (ho : r.isOpen = true) (hc : 0 < r.capacity) (ha : r.answers = [])
    (hp : r.transmitter.pending = []) (hb : r.codec e = .done bytes) (hn : bytes ≠ [])
    (hl : Moment.after? r.clock.read.now r.transmitter.timeout = none) :
    ∃ past t, Run step ⟨r, [.outside], true, .waiting⟩ past t ∧ t.relay.clock = r.clock.read ∧
      t.relay.stage = .crashed := by
  have haccepts : r.accepts = true := by
    rw [Relay.accepts, Relay.isServing_idle hs, Relay.isFull, hq, List.length_nil,
      decide_eq_false (Nat.not_le.2 hc)]
    rfl
  have hload : step ⟨r, [.outside], true, .waiting⟩ (.load 0 e) =
      some ⟨r, [.loaded e true], true, .waiting⟩ :=
    congrArg (fun holds => some (Threads.mk r [.loaded e holds] true .waiting)) ho
  have hsend : step ⟨r, [.loaded e true], true, .waiting⟩ (.send 0) =
      some ⟨r.accept e, [.leaving true], true, .waiting⟩ :=
    congrArg some (send_accepted (t := ⟨r, [.loaded e true], true, .waiting⟩) haccepts)
  have htake : step ⟨r.accept e, [.leaving true], true, .waiting⟩ .take =
      some ⟨{ r.accept e with stage := .holding e, queue := [] }, [.leaving true], true,
        .waiting⟩ := by
    have ht : (r.accept e).take? = some { r.accept e with stage := .holding e, queue := [] } := by
      simp only [Relay.take?, Relay.accept, Relay.count, hs, hq, List.nil_append]
    simp only [step, onRelay, ht, Option.map_some]
  obtain ⟨r', hhandle, hr'⟩ := Relay.handle_late
    (r := { r.accept e with stage := .holding e, queue := [] }) rfl ha hp hb hn hl
  have hhandled : step ⟨{ r.accept e with stage := .holding e, queue := [] }, [.leaving true], true,
      .waiting⟩ .handle = some ⟨r', [.leaving true], true, .waiting⟩ := by
    simp only [step, onRelay, hhandle, Option.map_some]
  have hrun := (((Run.start.next hload).next hsend).next htake).next hhandled
  rcases hr' with ⟨hcrash, hclock⟩ | ⟨hidle, hqueue, hanswers, hclock, hpending, htimeout⟩
  · exact ⟨_, _, hrun, hclock, hcrash⟩
  · have hleave : step ⟨r', [.leaving true], true, .waiting⟩ (.leave 0) =
        some ⟨r', [.outside], true, .waiting⟩ := rfl
    have hclose : step ⟨r', [.outside], true, .waiting⟩ (.close 0) =
        some ⟨r'.close, [.emptied false], true, .waiting⟩ := rfl
    have hempty : r'.close.isIdle = true := by
      simp only [Relay.isIdle, Relay.close, hidle, hqueue, List.isEmpty_nil]
    have hfinish : step ⟨r'.close, [.emptied false], true, .waiting⟩ .finish =
        some ⟨r'.close.windUp, [.emptied false], true, .waiting⟩ :=
      Steps.enabled (.finish rfl hempty rfl)
    have hlate : Moment.after? r'.close.clock.read.now r'.close.transmitter.timeout = none := by
      show Moment.after? r'.clock.read.now r'.transmitter.timeout = none
      rw [hclock, htimeout]
      exact hl
    obtain ⟨hcrash, hlast⟩ := Relay.windUp_late (r := r'.close) hanswers
      (fun h => hn (hpending.symm.trans h)) hlate
    refine ⟨_, _, ((hrun.next hleave).next hclose).next hfinish, ?_, hcrash⟩
    show r'.close.windUp.clock = _
    rw [hlast]
    exact congrArg Clock.read hclock

/-- The first choice of a moment for a flush takes the worker down, or it leaves a relay that
waits. -/
theorem exists_begun (s : Settings) (now : Moment) :
    ∃ past t, Run step (start (.unscheduled s [] [] ⟨now, []⟩) 1) past t ∧
      match Moment.after? now s.flushInterval with
      | none => t.relay.clock.now = now ∧ t.relay.stage = .crashed
      | some m => t = ⟨{ Relay.unscheduled s [] [] ⟨now, []⟩ with nextFlush := m }, [.outside], true,
          .waiting⟩ := by
  have hbegin : step (start (.unscheduled s [] [] ⟨now, []⟩) 1) .begin =
      some ⟨(Relay.unscheduled s [] [] ⟨now, []⟩).schedule, [.outside], true, .waiting⟩ := rfl
  refine ⟨_, _, Run.start.next hbegin, ?_⟩
  have hsched : (Relay.unscheduled s [] [] ⟨now, []⟩).schedule =
      match Moment.after? now s.flushInterval with
      | none => (Relay.unscheduled s [] [] ⟨now, []⟩).crash
      | some m => { Relay.unscheduled s [] [] ⟨now, []⟩ with nextFlush := m } := rfl
  rw [hsched]
  cases Moment.after? now s.flushInterval with
  | none => exact ⟨rfl, rfl⟩
  | some m => rfl

/-- A span that is out of reach takes the worker down in some run. -/
theorem exists_crash_of_none {s : Settings} {bytes : Bytes} {now : Moment}
    (hb : s.codec Relay.sample = .done bytes) (hn : bytes ≠ []) (hq : 0 < s.queueSize)
    (hl : Moment.after? now s.flushInterval = none ∨ Moment.after? now s.writeTimeout = none) :
    ∃ past t, Run step (start (.unscheduled s [] [] ⟨now, []⟩) 1) past t ∧
      t.relay.clock.now = now ∧ t.relay.stage = .crashed := by
  obtain ⟨past, t, hrun, ht⟩ := exists_begun s now
  cases hf : Moment.after? now s.flushInterval with
  | none =>
      rw [hf] at ht
      exact ⟨past, t, hrun, ht⟩
  | some m =>
      rw [hf] at ht hl
      dsimp only at ht
      obtain ⟨future, u, hu, hclock, hcrash⟩ := exists_crash
        (r := { Relay.unscheduled s [] [] ⟨now, []⟩ with nextFlush := m }) rfl rfl rfl hq rfl rfl hb hn
        (hl.resolve_left nofun)
      exact ⟨_, u, hrun.trans (ht ▸ hu), by rw [hclock]; rfl, hcrash⟩

/-- An event that every accepted encoder takes. -/
theorem codec_sample (scope : String) :
    ∃ bytes, Statsd.codec ⟨scope⟩ Relay.sample = .done bytes ∧ bytes ≠ [] := by
  refine ⟨Bytes.ofText (Statsd.line ⟨scope⟩ Relay.sample), ?_, fun h => ?_⟩
  · have hfinite : (Statsd.value Relay.sample.reading).isFinite = true := by decide +kernel
    have hname : Relay.sample.metric.name.isEmpty = false := by decide +kernel
    simp only [Statsd.codec, Statsd.encode, hfinite, hname, Bool.not_true, Bool.false_eq_true,
      if_false]
  · rw [Statsd.ofText_line] at h
    exact List.concat_ne_nil _ _ h

theorem codec_not_crashed {v : Yaml} {s : Settings} (h : Settings.ofYaml v = .ok s) (e : Event) :
    s.codec e ≠ .crashed := by
  obtain ⟨scope, hc⟩ := Settings.codec_of_ofYaml h
  rw [hc]
  unfold Statsd.codec
  split <;> exact nofun

theorem exists_crash_of_far {v : Yaml} {s : Settings} (h : Settings.ofYaml v = .ok s) {now : Moment}
    (hl : Moment.after? now s.withDefaults.flushInterval = none ∨
      Moment.after? now s.withDefaults.writeTimeout = none) :
    ∃ past t, Run step (start (.unscheduled s.withDefaults [] [] ⟨now, []⟩) 1) past t ∧
      t.relay.clock.now = now ∧ t.relay.stage = .crashed := by
  obtain ⟨scope, hc⟩ := Settings.codec_of_ofYaml h
  obtain ⟨bytes, hb, hn⟩ := codec_sample scope
  have hq : 0 < s.withDefaults.queueSize := by
    show 0 < Settings.sizeOr s.queueSize 1000
    unfold Settings.sizeOr
    split <;> omega
  exact exists_crash_of_none (hc ▸ hb) hn hq hl

/-- The sums of a clock's reading and a span from accepted settings can be shown, for every reading
up to the latest, exactly if the last entry for that span is not a number of seconds out of reach.
And exactly if this holds for both spans, no run up to the latest reading takes the worker down. -/
theorem accepted_in_reach {v : Yaml} {s : Settings} (h : Settings.ofYaml v = .ok s) :
    ((∀ now ≤ Moment.latest, (Moment.after? now s.withDefaults.flushInterval).isSome) ↔
      ¬ Settings.Distant .flushInterval v) ∧
    ((∀ now ≤ Moment.latest, (Moment.after? now s.withDefaults.writeTimeout).isSome) ↔
      ¬ Settings.Distant .writeTimeout v) ∧
    ((∀ reactions answers clock count past t,
        Run step (start (.unscheduled s.withDefaults reactions answers clock) count) past t →
        t.relay.clock.now ≤ Moment.latest → t.relay.stage ≠ .crashed) ↔
      ¬ Settings.Distant .flushInterval v ∧ ¬ Settings.Distant .writeTimeout v) := by
  have hf := Settings.near_flushInterval_iff h
  have ht := Settings.near_writeTimeout_iff h
  refine ⟨hf, ht, fun hsafe => ?_, fun hd reactions answers clock count past t hrun hc => ?_⟩
  · rw [← hf, ← ht]
    -- A reading from which a sum cannot be shown would start a run that ends in a crash.
    have shown {now : Nat} (hn : now ≤ Moment.latest)
        (hl : Moment.after? now s.withDefaults.flushInterval = none ∨
          Moment.after? now s.withDefaults.writeTimeout = none) : False := by
      obtain ⟨past, t, hrun, hclock, hcrash⟩ := exists_crash_of_far h hl
      exact hsafe _ _ _ _ past t hrun (hclock ▸ hn) hcrash
    constructor
    · intro now hn
      exact Option.ne_none_iff_isSome.1 fun hl => shown hn (.inl hl)
    · intro now hn
      exact Option.ne_none_iff_isSome.1 fun hl => shown hn (.inr hl)
  · exact run_near hrun (codec_not_crashed h) (hf.2 hd.1) (ht.2 hd.2) hc

/-- The longest whole number of seconds between flushes that is in reach. -/
theorem accepted_in_reach_longest : ∃ s,
    Settings.ofYaml (.mapping [(.text "addr", .text "mock"),
      (.text "flush_interval", .integer (Duration.reach - 1 : Nat))]) = .ok s ∧
    s.withDefaults.flushInterval.seconds = Duration.reach - 1 ∧
    (Moment.after? Moment.latest s.withDefaults.flushInterval).isSome ∧
    ∀ reactions answers clock count past t,
      Run step (start (.unscheduled s.withDefaults reactions answers clock) count) past t →
      t.relay.clock.now ≤ Moment.latest → t.relay.stage ≠ .crashed := by
  have haddress : Settings.Key.ofText? "addr" = some .address := by decide +kernel
  have hinterval : Settings.Key.ofText? "flush_interval" = some .flushInterval := by decide +kernel
  have h : Settings.ofYaml (.mapping [(.text "addr", .text "mock"),
      (.text "flush_interval", .integer (Duration.reach - 1 : Nat))]) =
      .ok { Settings.ofTarget (Statsd.codec ⟨""⟩) "tcp" "mock" with
        flushInterval := .ofSeconds (Duration.reach - 1) } := by
    simp only [Settings.ofYaml, Settings.Draft.entries, Settings.Draft.entry, haddress, hinterval]
    rfl
  have hd (k : Settings.Key) : ¬ Settings.Distant k (.mapping [(.text "addr", .text "mock"),
      (.text "flush_interval", .integer (Duration.reach - 1 : Nat))]) := by
    rintro ⟨es, e, n, hes, hlast, hseconds, hr⟩
    cases hes
    rcases List.mem_cons.1 hlast.mem with rfl | hm
    · cases hseconds with
      | text digits => exact absurd (digits 'm' (by decide)) (by decide)
    · cases List.mem_singleton.1 hm
      have hn := hseconds.eq_of_integer
      have hreach : Duration.reach = 2 ^ 63 - 2 ^ 40 := rfl
      omega
  obtain ⟨hf, -, hsafe⟩ := accepted_in_reach h
  exact ⟨_, h, by decide +kernel, hf.2 (hd _) _ (Nat.le_refl _), hsafe.2 ⟨hd _, hd _⟩⟩

/-- With a flush after each event, and the largest integer for its timeout, the first event takes
the worker down one second after the clock's origin. -/
theorem accepted_out_of_reach : ∃ s past t,
    Settings.ofYaml (.mapping [(.text "address", .text "mock"), (.text "buffer_size", .integer 1),
      (.text "write_timeout", .integer 9223372036854775807)]) = .ok s ∧
    Moment.after? nanosPerSecond s.withDefaults.writeTimeout = none ∧
    Run step (start (.unscheduled s.withDefaults [] [] ⟨nanosPerSecond, []⟩) 1) past t ∧
    t.relay.clock.now = nanosPerSecond ∧ nanosPerSecond ≤ Moment.latest ∧
    t.relay.stage = .crashed := by
  have haddress : Settings.Key.ofText? "address" = some .address := by decide +kernel
  have hsize : Settings.Key.ofText? "buffer_size" = some .bufferSize := by decide +kernel
  have htimeout : Settings.Key.ofText? "write_timeout" = some .writeTimeout := by decide +kernel
  have h : Settings.ofYaml (.mapping [(.text "address", .text "mock"),
      (.text "buffer_size", .integer 1), (.text "write_timeout", .integer 9223372036854775807)]) =
      .ok { Settings.ofTarget (Statsd.codec ⟨""⟩) "tcp" "mock" with
        bufferSize := 1
        writeTimeout := .ofSeconds 9223372036854775807 } := by
    simp only [Settings.ofYaml, Settings.Draft.entries, Settings.Draft.entry, haddress, hsize,
      htimeout]
    rfl
  have hl : Moment.after? nanosPerSecond (Duration.ofSeconds 9223372036854775807) = none := by
    decide +kernel
  obtain ⟨past, t, hrun, hclock, hcrash⟩ := exists_crash_of_far h (.inr hl)
  exact ⟨_, past, t, h, hl, hrun, hclock, by decide, hcrash⟩

end Threads
end Telemetry
