import Telemetry.Journal.Basic
import Telemetry.Run
/-!
What a journal has recorded, wherever its bytes are.

The bytes that the sink took, followed by those that wait in the buffer, are the lines of the events
in the order of the calls. A call that fails leaves its line unfinished: it may have added a first
part of it, and never all of it. Closing adds nothing, and once it succeeds nothing waits any more,
however often it had failed before. This is `lines_conserved`; before it stands one lemma for each
operation of the buffer, up to a line as a list of pieces.
-/

namespace Telemetry

/-! ## Draining -/

theorem Sink.left_drain (stuck : IoError) (data : Bytes) (s : Sink) :
    (s.drain stuck data).fault = none ↔ (s.drain stuck data).left = [] := by
  fun_induction Sink.drain stuck data s with
  | case1 data s h => simp
  | case2 data s h h2 => simpa using h
  | case3 data s h n h2 hn ih => exact ih
  | case4 data s h e h2 hi ih => exact ih
  | case5 data s h e h2 hi => simpa using h

/-- A drain takes bytes from the front only, and leaves the others in their order. -/
theorem Sink.drain_front (stuck : IoError) (data : Bytes) (s : Sink) :
    ∃ front, (s.drain stuck data).sink.content = s.content ++ front ∧
      front ++ (s.drain stuck data).left = data := by
  fun_induction Sink.drain stuck data s with
  | case1 data s h => exact ⟨[], by simp, by simpa using h.symm⟩
  | case2 data s h h2 => exact ⟨[], by simp [Sink.content_write, h2, SinkCall.taken], rfl⟩
  | case3 data s h n h2 hn ih =>
    obtain ⟨front, hc, hd⟩ := ih
    refine ⟨data.take n ++ front, ?_, ?_⟩
    · rw [hc, Sink.content_write, h2, List.append_assoc]
      rfl
    · rw [List.append_assoc, hd, List.take_append_drop]
  | case4 data s h e h2 hi ih =>
    obtain ⟨front, hc, hd⟩ := ih
    refine ⟨front, ?_, hd⟩
    rw [hc, Sink.content_write, h2]
    simp [SinkCall.taken]
  | case5 data s h e h2 hi => exact ⟨[], by simp [Sink.content_write, h2, SinkCall.taken], rfl⟩

/-! ## The buffer -/

namespace Buffered

/-- The bytes that the sink took, and behind them those that wait. -/
def bytes (b : Buffered) : Bytes := b.sink.content ++ b.held

/-- What an operation adds that was given `data`: all of it, or less than that if it fails. -/
inductive Adds (b : Buffered) (data : Bytes) : Option IoError × Buffered → Prop where
  | whole {b' : Buffered} (bytes : b'.bytes = b.bytes ++ data) : Adds b data (none, b')
  | part {b' : Buffered} {e : IoError} (front : Bytes) (short : front <+: data)
      (unfinished : front ≠ data) (bytes : b'.bytes = b.bytes ++ front) : Adds b data (some e, b')

theorem Adds.congr {b c : Buffered} {data : Bytes} {r : Option IoError × Buffered}
    (h : c.Adds data r) (hb : c.bytes = b.bytes) : b.Adds data r := by
  cases h with
  | whole bytes => exact .whole (hb ▸ bytes)
  | part front short unfinished bytes => exact .part front short unfinished (hb ▸ bytes)

theorem bytes_empty (b : Buffered) : b.empty.2.bytes = b.bytes :=
  Sink.content_drain stuckEmptying b.held b.sink

theorem held_empty {b : Buffered} (h : b.empty.1 = none) : b.empty.2.held = [] :=
  (Sink.left_drain stuckEmptying b.held b.sink).1 h

theorem adds_hold (b : Buffered) (data : Bytes) : b.Adds data (none, b.hold data) := by
  refine .whole ?_
  show b.sink.content ++ (b.held ++ data) = b.sink.content ++ b.held ++ data
  rw [List.append_assoc]

/-- Bytes go past the buffer, which they may do only while nothing waits in it. -/
theorem adds_bypass {b : Buffered} (data : Bytes) (h : b.held = []) :
    b.Adds data (b.bypass data) := by
  have hl := Sink.left_drain stuckWriting data b.sink
  obtain ⟨front, hc, hd⟩ := Sink.drain_front stuckWriting data b.sink
  have hb : (b.bypass data).2.bytes = b.bytes ++ front := by
    show (b.sink.drain stuckWriting data).sink.content ++ b.held = b.sink.content ++ b.held ++ front
    rw [h, hc, List.append_nil, List.append_nil]
  cases hf : (b.sink.drain stuckWriting data).fault with
  | none =>
      rw [hl.1 hf, List.append_nil] at hd
      have hr : b.bypass data = (none, (b.bypass data).2) := Prod.ext hf rfl
      rw [hr]
      exact .whole (hd ▸ hb)
  | some e =>
      have hr : b.bypass data = (some e, (b.bypass data).2) := Prod.ext hf rfl
      rw [hr]
      refine .part front ⟨_, hd⟩ (fun he => ?_) hb
      rw [he, List.append_right_eq_self] at hd
      exact Option.some_ne_none e (hf.symm.trans (hl.2 hd))

theorem adds_place {b : Buffered} (data : Bytes) (h : capacity ≤ data.length → b.held = []) :
    b.Adds data (b.place data) := by
  unfold place
  split
  · next hd => exact adds_bypass data (h hd)
  · exact b.adds_hold data

theorem adds_put (b : Buffered) (data : Bytes) : b.Adds data (b.put data) := by
  have he := b.bytes_empty
  have hh := b.held_empty
  unfold put
  split
  · exact b.adds_hold data
  · split
    · next hroom =>
      split
      · next b' hb =>
        rw [hb] at he hh
        exact (adds_place data fun _ => hh rfl).congr he
      · next e b' hb =>
        rw [hb] at he
        refine .part [] List.nil_prefix (fun hn => ?_) (he.trans (List.append_nil _).symm)
        rw [← hn] at hroom
        exact absurd hroom (Nat.not_lt_zero _)
    · next hroom _ =>
      refine adds_place data fun hd => List.length_eq_zero_iff.1 ?_
      unfold room capacity at *
      omega

/-- Pieces are added one by one, and the first one that fails is the last one to add anything. -/
theorem adds_putAll (b : Buffered) (pieces : List Bytes) :
    b.Adds pieces.flatten (b.putAll pieces) := by
  induction pieces generalizing b with
  | nil => exact .whole (List.append_nil _).symm
  | cons piece pieces ih =>
    have hp := b.adds_put piece
    unfold putAll
    rw [List.flatten_cons]
    generalize b.put piece = r at hp
    cases hp with
    | @whole b' hb =>
      have hr := ih b'
      dsimp only
      generalize b'.putAll pieces = r at hr
      cases hr with
      | whole hb' =>
        refine .whole ?_
        rw [hb', hb, List.append_assoc]
      | part front short unfinished hb' =>
        refine .part (piece ++ front) ((List.prefix_append_right_inj piece).2 short) ?_ ?_
        · intro hn
          exact unfinished (List.append_cancel_left hn)
        · rw [hb', hb, List.append_assoc]
    | part front short unfinished hb =>
      refine .part front (short.trans (List.prefix_append piece _)) (fun hn => unfinished ?_) hb
      -- A part as long as all the pieces would be as long as the first one.
      have hl := short.length_le
      have hw := congrArg List.length hn
      rw [List.length_append] at hw
      exact short.eq_of_length (by omega)

theorem bytes_flush (b : Buffered) : b.flush.2.bytes = b.bytes := by
  have he := b.bytes_empty
  unfold flush
  split
  · next b' hb =>
    rw [hb] at he
    rw [← he]
    show b'.sink.flush.2.content ++ b'.held = b'.sink.content ++ b'.held
    rw [Sink.content_flush]
  · next e b' hb =>
    rw [hb] at he
    exact he

theorem held_flush {b : Buffered} (h : b.flush.1 = none) : b.flush.2.held = [] := by
  have hh := b.held_empty
  unfold flush at h ⊢
  split at h
  · next b' hb =>
    rw [hb] at hh
    exact hh rfl
  · exact nomatch h

end Buffered

/-! ## The journal -/

namespace Journal

/-- All that was recorded, whether the sink took it or it waits. -/
def bytes (j : Journal) : Bytes := j.out.bytes

def lineBytes (e : Event) : Bytes := Bytes.ofChars (line e)

/-- What a call records: an event its whole line, or less than that if the call fails, and closing
nothing. -/
inductive Records : Call → Outcome → Bytes → Prop where
  | whole (e : Event) : Records (.event e) (.ok ()) (lineBytes e)
  | part (e : Event) (f : Failure) {front : Bytes} (short : front <+: lineBytes e)
      (unfinished : front ≠ lineBytes e) : Records (.event e) (.error f) front
  | close (o : Outcome) : Records .close o []

/-- A call leaves the journal that it was made to for the next one. -/
def step (j : Journal) (c : Call) : Option Journal := some (j.answer c).2

/-- The bytes that a call adds. -/
def added : Journal × Call → Bytes
  | (j, c) => (j.answer c).2.bytes.drop j.bytes.length

theorem flatten_ofChars (ps : List Piece) :
    (ps.map Bytes.ofChars).flatten = Bytes.ofChars ps.flatten := by
  induction ps with
  | nil => rfl
  | cons piece pieces ih =>
    rw [List.map_cons, List.flatten_cons, ih, List.flatten_cons, Bytes.ofChars_append]

theorem flatten_linePieces (e : Event) :
    ((linePieces e).map Bytes.ofChars).flatten = lineBytes e :=
  flatten_ofChars (linePieces e)

theorem outcome_eq_ok {fault : Option IoError} (h : outcome fault = .ok ()) : fault = none := by
  cases fault with
  | none => rfl
  | some e => exact nomatch h

theorem content_intoSink {j : Journal} {s : Sink} (h : j.intoSink = .ok s) :
    s.content = j.bytes := by
  have he := j.out.bytes_empty
  have hh := j.out.held_empty
  unfold intoSink at h
  split at h
  · next out ho =>
    cases h
    rw [ho] at he hh
    show out.sink.content = j.out.bytes
    rw [← he]
    show _ = out.sink.content ++ out.held
    rw [hh rfl, List.append_nil]
  · exact nomatch h

/-! ## Lines in pieces -/

/-- A way to cut the lines of events into pieces, each of which is put into the buffer by itself. -/
structure Cut where
  pieces : Event → List Bytes
  flatten : ∀ e, (pieces e).flatten = lineBytes e

/-- The pieces that a journal writes. -/
def Cut.written : Cut := ⟨fun e => (linePieces e).map Bytes.ofChars, flatten_linePieces⟩

def recordBy (cut : Cut) (j : Journal) (e : Event) : Outcome × Journal :=
  let (fault, out) := j.out.putAll (cut.pieces e)
  (outcome fault, ⟨out⟩)

def answerBy (cut : Cut) (c : Call) (j : Journal) : Outcome × Journal :=
  match c with
  | .event e => j.recordBy cut e
  | .close => j.close

def stepBy (cut : Cut) (j : Journal) (c : Call) : Option Journal := some (j.answerBy cut c).2

def addedBy (cut : Cut) : Journal × Call → Bytes
  | (j, c) => (j.answerBy cut c).2.bytes.drop j.bytes.length

theorem answerBy_written : answerBy .written = answer := by
  funext c j
  cases c with
  | event e => rfl
  | close => rfl

theorem stepBy_written : stepBy .written = step := by
  funext j c
  unfold stepBy step
  rw [answerBy_written]

theorem addedBy_written : addedBy .written = added := by
  funext x
  unfold addedBy added
  rw [answerBy_written]

theorem records_answerBy (cut : Cut) (j : Journal) (c : Call) :
    ∃ part, Records c (j.answerBy cut c).1 part ∧ (j.answerBy cut c).2.bytes = j.bytes ++ part := by
  cases c with
  | event e =>
    have h := j.out.adds_putAll (cut.pieces e)
    rw [cut.flatten] at h
    unfold answerBy recordBy
    dsimp only
    generalize j.out.putAll (cut.pieces e) = r at h
    cases h with
    | whole bytes => exact ⟨_, .whole e, bytes⟩
    | part front short unfinished bytes => exact ⟨front, .part e _ short unfinished, bytes⟩
  | close =>
    refine ⟨[], .close _, ?_⟩
    rw [List.append_nil]
    exact j.out.bytes_flush

/-- A call adds to what was recorded, and takes nothing away. -/
theorem bytes_answerBy (cut : Cut) (j : Journal) (c : Call) :
    Records c (j.answerBy cut c).1 (addedBy cut (j, c)) ∧
      (j.answerBy cut c).2.bytes = j.bytes ++ addedBy cut (j, c) := by
  obtain ⟨part, hr, hb⟩ := j.records_answerBy cut c
  have ha : addedBy cut (j, c) = part := by
    show (j.answerBy cut c).2.bytes.drop j.bytes.length = part
    rw [hb, List.drop_left]
  rw [ha]
  exact ⟨hr, hb⟩

theorem run_bytesBy {cut : Cut} {sink : Sink} {past : List (Journal × Call)} {j : Journal}
    (h : Run (stepBy cut) (ofSink sink) past j) :
    (∀ x ∈ past, Records x.2 (x.1.answerBy cut x.2).1 (addedBy cut x)) ∧
      j.bytes = sink.content ++ past.flatMap (addedBy cut) := by
  induction h with
  | start => exact ⟨fun x hx => absurd hx List.not_mem_nil, rfl⟩
  | @next past u v c before enabled ih =>
    obtain ⟨hr, hb⟩ := u.bytes_answerBy cut c
    cases enabled
    refine ⟨fun x hx => ?_, ?_⟩
    · rcases List.mem_append.1 hx with hx | hx
      · exact ih.1 x hx
      · rw [List.mem_singleton.1 hx]
        exact hr
    · rw [hb, ih.2, List.flatMap_append, List.flatMap_singleton, List.append_assoc]

theorem run_bytes {sink : Sink} {past : List (Journal × Call)} {j : Journal}
    (h : Run step (ofSink sink) past j) :
    (∀ x ∈ past, Records x.2 (x.1.answer x.2).1 (added x)) ∧
      j.bytes = sink.content ++ past.flatMap added := by
  rw [← stepBy_written] at h
  have hr := run_bytesBy h
  rwa [answerBy_written, addedBy_written] at hr

/-- Whatever the sink does, and whichever calls fail on the way: the bytes that the sink took,
followed by those that still wait, are what the sink held at first and then, call by call, the whole
line of each event whose call succeeded and an unfinished one of each event whose call failed. Once
closing succeeds, or the sink is taken out of the journal, all of this is with the sink. -/
theorem lines_conserved {sink : Sink} {past : List (Journal × Call)} {j : Journal}
    (h : Run step (ofSink sink) past j) :
    (∀ x ∈ past, Records x.2 (x.1.answer x.2).1 (added x)) ∧
    j.out.sink.content ++ j.out.held = sink.content ++ past.flatMap added ∧
    (∀ j', j.answer .close = (.ok (), j') →
      j'.out.held = [] ∧ j'.out.sink.content = sink.content ++ past.flatMap added) ∧
    (∀ s, j.intoSink = .ok s → s.content = sink.content ++ past.flatMap added) := by
  obtain ⟨hr, hb⟩ := run_bytes h
  refine ⟨hr, hb, fun j' hc => ?_, fun s hs => ?_⟩
  · obtain ⟨hf, rfl⟩ := Prod.ext_iff.1 hc
    have hh : j.close.2.out.held = [] := Buffered.held_flush (outcome_eq_ok hf)
    have hc : j.close.2.bytes = j.bytes := j.out.bytes_flush
    refine ⟨hh, ?_⟩
    rw [← hb, ← hc]
    show _ = j.close.2.out.sink.content ++ j.close.2.out.held
    rw [hh, List.append_nil]
    rfl
  · rw [content_intoSink hs, ← hb]

def sample : Event := ⟨⟨"depth", "", .empty⟩, .set .zero⟩

/-- A sink that takes three bytes and then fails, and whose first flush fails. -/
def flaky : Sink where
  writes := ⟨[⟨0, .take (some 3)⟩, ⟨0, .fail (.bare .brokenPipe)⟩], ⟨0, .take none⟩⟩
  flushes := ⟨[⟨0, some (.bare .brokenPipe)⟩], ⟨0, none⟩⟩
  limits := .constant ⟨0, none⟩
  past := []
  settles := rfl

/-- One event, and closing that fails twice. -/
def retried : Option (List (Journal × Call) × Journal) :=
  Run.follow step (ofSink flaky) [.event sample, .close, .close]

theorem eq_ok_of_isOk {o : Outcome} (h : o.isOk = true) : o = .ok () := by
  cases o with
  | ok _ => rfl
  | error f => exact nomatch h

theorem lines_conserved_retried : ∃ past j j', Run step (ofSink flaky) past j ∧
    past.map (fun x => (x.1.answer x.2).1.isOk) = [true, false, false] ∧
    j.answer .close = (.ok (), j') ∧ j'.out.held = [] ∧
    j'.out.sink.content = lineBytes sample := by
  have hsome : retried.isSome = true := by decide +kernel
  have hpast : retried.map (fun run => (run.1.map (fun x => (x.1.answer x.2).1.isOk),
      run.1.flatMap added)) = some ([true, false, false], lineBytes sample) := by
    decide +kernel
  have hclose : retried.map (fun run => (run.2.answer .close).1.isOk) = some true := by
    decide +kernel
  obtain ⟨⟨past, j⟩, hr⟩ := Option.isSome_iff_exists.1 hsome
  rw [hr] at hpast hclose
  have h := Run.of_follow hr
  have hp := Option.some.inj hpast
  have hc : j.answer .close = (.ok (), (j.answer .close).2) :=
    Prod.ext (eq_ok_of_isOk (Option.some.inj hclose)) rfl
  obtain ⟨-, -, hclosed, -⟩ := lines_conserved h
  obtain ⟨hheld, hcontent⟩ := hclosed _ hc
  refine ⟨past, j, _, h, congrArg (·.1) hp, hc, hheld, hcontent.trans ?_⟩
  exact congrArg (·.2) hp

end Journal
end Telemetry
