import Telemetry.Proofs.Journal.Decoding
/-!
Lines that a journal leaves unfinished.

An event whose call fails may have got a first part of its line into the buffer. Nothing takes it
back, and no line feed ends it: it stands in front of the next line that is finished, and makes one
line with it. The main statement is `lines_glued`. It holds however the lines are cut into pieces; a
piece that is shorter than the buffer gets in as a whole or not at all, so a fragment is left
exactly if the first piece of the event gets in and a later one does not.
-/

namespace Telemetry

theorem Bytes.splitLines_self {a : Bytes} (h : newline ∉ a) : splitLines a = ([], a) := by
  induction a with
  | nil => rfl
  | cons b a ih =>
    simp only [List.mem_cons, not_or] at h
    simp [splitLines, ih h.2, Ne.symm h.1]

/-! ## One piece -/

namespace Buffered

theorem place_short {b : Buffered} {data : Bytes} (h : data.length < capacity) :
    b.place data = (none, b.hold data) := if_neg (by omega)

theorem put_fits {b : Buffered} {data : Bytes} (h : data.length < capacity)
    (hr : data.length ≤ b.room) : b.put data = (none, b.hold data) := by
  unfold put
  by_cases hlt : data.length < b.room
  · rw [if_pos hlt]
  · rw [if_neg hlt, if_neg (by omega), place_short h]

/-- A short piece that does not fit waits for the buffer to be emptied, and then it does. -/
theorem put_over {b : Buffered} {data : Bytes} (h : data.length < capacity)
    (hr : b.room < data.length) :
    b.put data = (b.empty.1, if b.empty.1 = none then b.empty.2.hold data else b.empty.2) := by
  unfold put
  rw [if_neg (by omega), if_pos hr]
  split
  · next b' he => rw [place_short h, he]; rfl
  · next e b' he => rw [he]; rfl

/-- A short piece gets in as a whole, or no part of it does. -/
theorem put_short {b : Buffered} {data : Bytes} (h : data.length < capacity) :
    (data.length ≤ b.room ∨ b.empty.1 = none) ∧ (b.put data).1 = none ∨
      ¬(data.length ≤ b.room ∨ b.empty.1 = none) ∧ (b.put data).1 ≠ none ∧
        (b.put data).2.bytes = b.bytes := by
  by_cases hr : data.length ≤ b.room
  · rw [put_fits h hr]
    exact .inl ⟨.inl hr, rfl⟩
  · rw [put_over h (by omega)]
    by_cases he : b.empty.1 = none
    · exact .inl ⟨.inr he, he⟩
    · rw [if_neg he]
      exact .inr ⟨by simp [hr, he], he, b.bytes_empty⟩

/-- Short pieces that fit together all wait in the buffer. -/
theorem putAll_fits {b : Buffered} {ps : List Bytes} (hs : ∀ p ∈ ps, p.length < capacity)
    (h : ps.flatten.length ≤ b.room) : b.putAll ps = (none, b.hold ps.flatten) := by
  induction ps generalizing b with
  | nil => simp [putAll, hold]
  | cons p ps ih =>
    rw [List.forall_mem_cons] at hs
    rw [List.flatten_cons, List.length_append] at h
    have hroom : (b.hold p).room = b.room - p.length := by
      simp only [room, hold, List.length_append]
      omega
    rw [putAll, put_fits hs.1 (by omega)]
    dsimp only
    rw [ih hs.2 (by omega)]
    simp [hold]

theorem putAll_append {b b' : Buffered} {ps : List Bytes} (h : b.putAll ps = (none, b'))
    (qs : List Bytes) : b.putAll (ps ++ qs) = b'.putAll qs := by
  induction ps generalizing b with
  | nil =>
    cases h
    rfl
  | cons p ps ih =>
    rw [putAll] at h
    rw [List.cons_append, putAll]
    split at h
    · exact ih h
    · cases h

theorem Adds.front {b : Buffered} {data : Bytes} {r : Option IoError × Buffered} (h : b.Adds data r) :
    ∃ front, r.2.bytes = b.bytes ++ front := by
  cases h with
  | whole bytes => exact ⟨data, bytes⟩
  | part front _ _ bytes => exact ⟨front, bytes⟩

/-- Nothing of a line gets in unless its first piece does. -/
theorem putAll_short {b : Buffered} {p : Bytes} (h : p.length < capacity) (ps : List Bytes) :
    (p.length ≤ b.room ∨ b.empty.1 = none) ∧
        (∃ rest, (b.putAll (p :: ps)).2.bytes = b.bytes ++ (p ++ rest)) ∨
      ¬(p.length ≤ b.room ∨ b.empty.1 = none) ∧ (b.putAll (p :: ps)).2.bytes = b.bytes := by
  have hadds := b.adds_put p
  unfold putAll
  rcases put_short h with ⟨hin, hok⟩ | ⟨hout, hfail, hsame⟩
  · refine .inl ⟨hin, ?_⟩
    split
    · next b' hput =>
      rw [hput] at hadds
      obtain ⟨hb⟩ := hadds
      obtain ⟨rest, hrest⟩ := (b'.adds_putAll ps).front
      exact ⟨rest, by rw [hrest, hb, List.append_assoc]⟩
    · next e b' hput =>
      rw [hput] at hok
      cases hok
  · refine .inr ⟨hout, ?_⟩
    split
    · next b' hput =>
      rw [hput] at hfail
      exact absurd rfl hfail
    · next e b' hput =>
      rw [hput] at hsame
      exact hsame

end Buffered

/-! ## One call -/

namespace Journal

/-- The event that a call has recorded, if the call has succeeded. -/
def kept (cut : Cut) (x : Journal × Call) : List Event :=
  match x.2 with
  | .event e => if (x.1.answerBy cut x.2).1.isOk then [e] else []
  | .close => []

/-- What a call that has failed has added nevertheless. -/
def fragment (cut : Cut) (x : Journal × Call) : Bytes :=
  if (x.1.answerBy cut x.2).1.isOk then [] else addedBy cut x

/-- A call keeps its event, or leaves a fragment that ends before the line feed, or closes. -/
theorem call_cases (cut : Cut) (x : Journal × Call) :
    (∃ e, x.2 = .event e ∧ kept cut x = [e] ∧ fragment cut x = [] ∧ addedBy cut x = lineBytes e) ∨
    (∃ e, x.2 = .event e ∧ kept cut x = [] ∧ fragment cut x = addedBy cut x ∧
      addedBy cut x <+: bodyBytes e) ∨
    (x.2 = .close ∧ kept cut x = [] ∧ fragment cut x = [] ∧ addedBy cut x = []) := by
  obtain ⟨j, c⟩ := x
  have hr := (j.bytes_answerBy cut c).1
  unfold kept fragment
  dsimp only
  generalize addedBy cut (j, c) = part at hr ⊢
  generalize (j.answerBy cut c).1 = o at hr ⊢
  cases hr with
  | whole e => exact .inl ⟨e, rfl, rfl, rfl, rfl⟩
  | part e f short unfinished =>
    rw [lineBytes_eq] at short unfinished
    exact .inr (.inl ⟨e, rfl, rfl, rfl, (List.prefix_concat_iff.1 short).resolve_left unfinished⟩)
  | close => exact .inr (.inr ⟨rfl, rfl, by simp, rfl⟩)

theorem addedBy_eq (cut : Cut) (x : Journal × Call) :
    addedBy cut x = (kept cut x).flatMap lineBytes ++ fragment cut x := by
  rcases call_cases cut x with ⟨e, -, hk, hf, ha⟩ | ⟨e, -, hk, hf, -⟩ | ⟨-, hk, hf, ha⟩
  · simp [hk, hf, ha]
  · simp [hk, hf]
  · simp [hk, hf, ha]

theorem newline_not_mem_fragment (cut : Cut) (x : Journal × Call) :
    Bytes.newline ∉ fragment cut x := by
  rcases call_cases cut x with ⟨e, -, -, hf, -⟩ | ⟨e, -, -, hf, hp⟩ | ⟨-, -, hf, -⟩
  · simp [hf]
  · rw [hf]
    exact fun h => newline_not_mem_bodyBytes e (hp.mem h)
  · simp [hf]

/-- A call leaves a fragment exactly if the first piece of its event gets in and the call fails. -/
theorem fragment_ne_nil_iff {cut : Cut} {e : Event} {p : Bytes} {ps : List Bytes}
    (hp : cut.pieces e = p :: ps) (hn : p ≠ []) (hl : p.length < Buffered.capacity) (j : Journal) :
    fragment cut (j, .event e) ≠ [] ↔
      (j.recordBy cut e).1 ≠ .ok () ∧ (p.length ≤ j.out.room ∨ j.out.empty.1 = none) := by
  have hfragment : fragment cut (j, .event e) = if (j.recordBy cut e).1.isOk then []
      else (j.recordBy cut e).2.bytes.drop j.bytes.length := rfl
  have hbytes : (j.recordBy cut e).2.bytes = (j.out.putAll (p :: ps)).2.bytes := by
    rw [← hp]
    rfl
  rw [hfragment, hbytes]
  rcases Buffered.putAll_short hl ps with ⟨hin, rest, hrest⟩ | ⟨hout, hsame⟩
  · have hdrop : (j.out.putAll (p :: ps)).2.bytes.drop j.bytes.length = p ++ rest := by
      rw [hrest]
      exact List.drop_left
    rw [hdrop]
    cases ho : (j.recordBy cut e).1 with
    | ok _ => simp [Except.isOk, Except.toBool]
    | error f => simp [Except.isOk, Except.toBool, hn, hin]
  · have hdrop : (j.out.putAll (p :: ps)).2.bytes.drop j.bytes.length = [] := by
      rw [hsame]
      exact List.drop_length
    rw [hdrop]
    simp [hout]

/-- With the pieces that a journal writes, the first one is an opening brace. -/
theorem fragment_written (j : Journal) (e : Event) :
    fragment .written (j, .event e) ≠ [] ↔
      (j.record e).1 ≠ .ok () ∧ (j.out.held.length < Buffered.capacity ∨ j.out.empty.1 = none) := by
  have hp : Cut.written.pieces e = [0x7b] :: (Cut.written.pieces e).tail := rfl
  have hroom : 1 ≤ j.out.room ↔ j.out.held.length < Buffered.capacity := by
    unfold Buffered.room
    omega
  have h := fragment_ne_nil_iff hp (by decide) (by decide) j
  rw [List.length_singleton, hroom] at h
  exact h

/-- A line in one piece that is shorter than the buffer leaves no fragment. -/
theorem fragment_single {cut : Cut} {e : Event} (hp : cut.pieces e = [lineBytes e])
    (hl : (lineBytes e).length < Buffered.capacity) (j : Journal) :
    fragment cut (j, .event e) = [] := by
  have hn : lineBytes e ≠ [] := by simp [lineBytes_eq]
  by_contra h
  obtain ⟨hfail, hin⟩ := (fragment_ne_nil_iff hp hn hl j).1 h
  refine hfail ?_
  have hrecord : (j.recordBy cut e).1 = outcome (j.out.putAll [lineBytes e]).1 := by
    rw [← hp]
    rfl
  rcases Buffered.put_short hl with ⟨-, hok⟩ | ⟨hout, -⟩
  · have hput : j.out.put (lineBytes e) = (none, (j.out.put (lineBytes e)).2) := Prod.ext hok rfl
    rw [hrecord, Buffered.putAll, hput]
    rfl
  · exact absurd hin hout

/-! ## The lines -/

/-- The lines of a journal, and what stands behind the last one: a line has in front of it the
fragments since the line before. -/
def linesBehind (cut : Cut) (front : Bytes) : List (Journal × Call) → List Bytes × Bytes
  | [] => ([], front)
  | x :: past =>
    match kept cut x with
    | [] => linesBehind cut (front ++ fragment cut x) past
    | e :: _ =>
      let behind := linesBehind cut [] past
      ((front ++ bodyBytes e) :: behind.1, behind.2)

theorem splitLines_recorded (cut : Cut) (front : Bytes) (h : Bytes.newline ∉ front)
    (past : List (Journal × Call)) :
    Bytes.splitLines (front ++ past.flatMap (addedBy cut)) = linesBehind cut front past := by
  induction past generalizing front with
  | nil =>
    rw [List.flatMap_nil, List.append_nil, Bytes.splitLines_self h]
    rfl
  | cons x past ih =>
    rw [List.flatMap_cons, ← List.append_assoc, linesBehind]
    rcases call_cases cut x with ⟨e, -, hk, hf, ha⟩ | ⟨e, -, hk, hf, -⟩ | ⟨-, hk, hf, ha⟩
    · have hnew : Bytes.newline ∉ front ++ bodyBytes e := by
        simp [h, newline_not_mem_bodyBytes]
      have ih := ih [] List.not_mem_nil
      rw [List.nil_append] at ih
      rw [hk, ha, lineBytes_eq, ← List.append_assoc, List.append_assoc _ [Bytes.newline],
        List.singleton_append, Bytes.splitLines_append _ hnew, ih]
    · rw [hk, ← hf]
      exact ih _ (by simp [h, newline_not_mem_fragment])
    · rw [hk, hf, ha]
      exact ih _ (by simpa using h)

/-- All is lines exactly if there are no fragments. -/
theorem flatMap_addedBy_iff (cut : Cut) (past : List (Journal × Call)) :
    past.flatMap (addedBy cut) = (past.flatMap (kept cut)).flatMap lineBytes ↔
      ∀ x ∈ past, fragment cut x = [] := by
  have hlength : (past.flatMap (addedBy cut)).length =
      ((past.flatMap (kept cut)).flatMap lineBytes).length +
        (past.flatMap (fragment cut)).length := by
    induction past with
    | nil => rfl
    | cons x past ih =>
      simp only [List.flatMap_cons, List.flatMap_append, List.length_append, addedBy_eq cut x, ih]
      omega
  constructor
  · intro h
    rw [h] at hlength
    have hnil : past.flatMap (fragment cut) = [] := List.length_eq_zero_iff.1 (by omega)
    exact List.flatMap_eq_nil_iff.1 hnil
  · intro h
    clear hlength
    induction past with
    | nil => rfl
    | cons x past ih =>
      rw [List.forall_mem_cons] at h
      rw [List.flatMap_cons, List.flatMap_cons, List.flatMap_append, addedBy_eq, h.1, ih h.2,
        List.append_nil]

/-- However the lines are cut into pieces, whatever the sink does and whichever calls fail: a call
adds the whole line of its event if it succeeds, and a fragment of its body if it fails. Once
closing succeeds, each line of the sink is the body of one event whose call succeeded, behind the
fragments of the calls that failed since the line before. So the sink has whole lines only, one for
each of these events, exactly if no call has left a fragment; and then each of the lines reads as
its event. -/
theorem lines_glued (cut : Cut) {sink : Sink} (hempty : sink.content = [])
    {past : List (Journal × Call)} {j : Journal} (h : Run (stepBy cut) (ofSink sink) past j) :
    (∀ x ∈ past, addedBy cut x = (kept cut x).flatMap lineBytes ++ fragment cut x ∧
      ∀ e, x.2 = .event e → fragment cut x <+: bodyBytes e) ∧
    (j.close.1 = .ok () →
      Bytes.splitLines j.close.2.out.sink.content = linesBehind cut [] past ∧
      (j.close.2.out.sink.content = (past.flatMap (kept cut)).flatMap lineBytes ↔
        ∀ x ∈ past, fragment cut x = []) ∧
      ((∀ x ∈ past, fragment cut x = []) →
        (Bytes.splitLines j.close.2.out.sink.content).2 = [] ∧
        List.Forall₂ (fun line e => ∃ v, readLine line = some v ∧ Tells v e)
          (Bytes.splitLines j.close.2.out.sink.content).1 (past.flatMap (kept cut)))) ∧
    (∀ k e p ps, cut.pieces e = p :: ps → p ≠ [] → p.length < Buffered.capacity →
      (fragment cut (k, .event e) ≠ [] ↔
        (k.recordBy cut e).1 ≠ .ok () ∧ (p.length ≤ k.out.room ∨ k.out.empty.1 = none))) := by
  refine ⟨fun x _ => ⟨addedBy_eq cut x, ?_⟩, fun hc => ?_, fun k e p ps hp hn hl =>
    fragment_ne_nil_iff hp hn hl k⟩
  · intro e he
    rcases call_cases cut x with ⟨f, -, -, hf, -⟩ | ⟨f, hx, -, hf, hp⟩ | ⟨hx, -⟩
    · simp [hf]
    · rw [he] at hx
      cases hx
      rw [hf]
      exact hp
    · cases he.symm.trans hx
  · have hcontent := content_closed h hc
    rw [hempty, List.nil_append] at hcontent
    have hsplit := splitLines_recorded cut [] List.not_mem_nil past
    rw [List.nil_append] at hsplit
    have hwhole := flatMap_addedBy_iff cut past
    rw [hcontent]
    refine ⟨hsplit, hwhole, fun hnone => ?_⟩
    rw [hwhole.2 hnone, splitLines_lines, List.forall₂_map_left_iff, List.forall₂_same]
    exact ⟨rfl, fun e _ => ⟨document e, readLine_bodyBytes e, tells_document e⟩⟩

/-! ## A line with two objects -/

/-- An event whose line is longer than the buffer by its line feed. -/
def lengthy : Event := ⟨⟨String.ofList (List.replicate 8154 'x'), "", .empty⟩, .set .zero⟩

theorem numberText_zero : numberText .zero = "0.0".toList := by decide +kernel

theorem text_replicate (n : Nat) :
    Quoted.text (List.replicate n 'x') = '"' :: List.replicate n 'x' ++ ['"'] := by
  have hx : Quoted.inside 'x' = ['x'] := by decide
  rw [Quoted.text, List.flatMap_replicate, hx, List.flatten_replicate_singleton]

theorem body_replicate (n : Nat) :
    body ⟨⟨String.ofList (List.replicate n 'x'), "", .empty⟩, .set .zero⟩ =
      "\x7b\"type\":\"gauge\",\"name\":\"".toList ++ List.replicate n 'x' ++
        "\",\"value\":0.0\x7d".toList := by
  have hm : members ⟨⟨String.ofList (List.replicate n 'x'), "", .empty⟩, .set .zero⟩ =
      [memberPieces "type" (textPieces "gauge"),
        memberPieces "name" (textPieces (String.ofList (List.replicate n 'x'))),
        memberPieces "value" ["0.0".toList]] := by
    rw [← numberText_zero]
    rfl
  have htype : Quoted.text "type".toList = "\"type\"".toList := by decide
  have hname : Quoted.text "name".toList = "\"name\"".toList := by decide
  have hvalue : Quoted.text "value".toList = "\"value\"".toList := by decide
  have hgauge : Quoted.text "gauge".toList = "\"gauge\"".toList := by decide
  unfold body
  rw [hm]
  simp only [objectPieces, separated, List.flatten_cons, List.flatten_append, flatten_memberPieces,
    flatten_textPieces, Json.memberText, htype, hname, hvalue, hgauge, String.toList_ofList,
    text_replicate]
  simp

theorem length_lengthy : (bodyBytes lengthy).length = Buffered.capacity := by
  have hx : String.utf8EncodeChar 'x' = [120] := by decide
  have hn : (Bytes.ofChars (List.replicate 8154 'x')).length = 8154 := by
    rw [Bytes.ofChars, List.flatMap_replicate, hx, List.flatten_replicate_singleton,
      List.length_replicate]
  unfold bodyBytes lengthy
  rw [body_replicate, Bytes.ofChars_append, Bytes.ofChars_append, List.length_append,
    List.length_append, hn]
  decide

/-- A sink whose first write fails. -/
def faltering : Sink where
  writes := ⟨[⟨0, .fail (.bare .brokenPipe)⟩], ⟨0, .take none⟩⟩
  flushes := .constant ⟨0, none⟩
  limits := .constant ⟨0, none⟩
  past := []
  settles := rfl

/-- A journal with all of an event in its buffer but for the line feed. -/
def stranded (e : Event) : Journal := ⟨(faltering.write (bodyBytes e)).2, bodyBytes e⟩

theorem drain_faltering {data : Bytes} (h : data ≠ []) (stuck : IoError) :
    faltering.drain stuck data = ⟨some (.bare .brokenPipe), data, (faltering.write data).2⟩ := by
  have hw : (faltering.write data).1.answer = .error (.bare .brokenPipe) := rfl
  have hi : (IoError.bare .brokenPipe).isInterrupted = false := by decide
  unfold Sink.drain
  rw [if_neg (by simpa using h)]
  split
  · next n hn => cases hw.symm.trans hn
  · next e he =>
    cases hw.symm.trans he
    rw [hi]
    rfl

/-- What does not fit any more waits for a write that fails. -/
theorem putAll_full {data : Bytes} (h : data.length = Buffered.capacity) :
    (⟨faltering, data⟩ : Buffered).putAll [[Bytes.newline]] =
      (some (.bare .brokenPipe), ⟨(faltering.write data).2, data⟩) := by
  have hn : data ≠ [] := by
    rintro rfl
    exact absurd h (by decide)
  have hempty : (⟨faltering, data⟩ : Buffered).empty =
      (some (.bare .brokenPipe), ⟨(faltering.write data).2, data⟩) := by
    unfold Buffered.empty
    rw [drain_faltering hn]
  have hroom : (⟨faltering, data⟩ : Buffered).room < [Bytes.newline].length := by
    simp [Buffered.room, h]
  rw [Buffered.putAll, Buffered.put_over (by decide) hroom, hempty]
  rfl

/-- An event that fills the buffer up is there but for its line feed. -/
theorem recordBy_stranded {e : Event} (h : (bodyBytes e).length = Buffered.capacity) :
    (ofSink faltering).recordBy .written e = (.error (.io (.bare .brokenPipe)), stranded e) := by
  have hpieces : Cut.written.pieces e =
      (objectPieces (members e)).map Bytes.ofChars ++ [[Bytes.newline]] :=
    List.map_append
  have hflatten : ((objectPieces (members e)).map Bytes.ofChars).flatten = bodyBytes e :=
    flatten_ofChars _
  have hshort : ∀ p ∈ (objectPieces (members e)).map Bytes.ofChars,
      p.length < Buffered.capacity := by
    have hopen : (objectPieces (members e)).map Bytes.ofChars =
        [0x7b] :: ((separated (members e) ++ [['\x7d']]).map Bytes.ofChars) := rfl
    rw [← hflatten, hopen, List.flatten_cons, List.length_append, List.length_singleton] at h
    rw [hopen, List.forall_mem_cons]
    refine ⟨by decide, fun p hp => ?_⟩
    have hle := (List.sublist_flatten_of_mem hp).length_le
    omega
  have hbody : (ofSink faltering).out.putAll ((objectPieces (members e)).map Bytes.ofChars) =
      (none, ⟨faltering, bodyBytes e⟩) := by
    rw [Buffered.putAll_fits hshort, hflatten]
    · rfl
    · rw [hflatten, h]
      exact Nat.le_refl _
  rw [recordBy, hpieces, Buffered.putAll_append hbody, putAll_full h]
  rfl

theorem willing_stranded (e : Event) : (stranded e).out.sink.Willing := by
  constructor
  · simp [Feed.All, stranded, faltering, Sink.write, Feed.next, WriteAnswer.isWilling]
  · simp [Feed.All, stranded, faltering, Sink.write, Feed.constant]

/-- The event that fills the buffer up fails, and all of it is a fragment. -/
theorem fragment_stranded {e : Event} (h : (bodyBytes e).length = Buffered.capacity) :
    kept .written (ofSink faltering, .event e) = [] ∧
      fragment .written (ofSink faltering, .event e) = bodyBytes e := by
  have hr : (ofSink faltering).answerBy .written (.event e) =
      (.error (.io (.bare .brokenPipe)), stranded e) := recordBy_stranded h
  unfold kept fragment addedBy
  dsimp only
  rw [hr]
  exact ⟨rfl, rfl⟩

/-- What follows the event that fills the buffer up succeeds. -/
theorem run_stranded {e : Event} (h : (bodyBytes e).length = Buffered.capacity) (f : Event) :
    ∃ j, Run (stepBy .written) (ofSink faltering)
        [(ofSink faltering, .event e), (stranded e, .event f)] j ∧
      ((stranded e).answerBy .written (.event f)).1 = .ok () ∧ j.close.1 = .ok () := by
  have hfirst : stepBy .written (ofSink faltering) (.event e) = some (stranded e) := by
    show some ((ofSink faltering).recordBy .written e).2 = _
    rw [recordBy_stranded h]
  obtain ⟨hok, hw⟩ := willing_answerBy .written (willing_stranded e) (.event f)
  obtain ⟨hclose, -⟩ := willing_answerBy .written hw .close
  exact ⟨_, (Run.start.next hfirst).next rfl, hok, hclose⟩

theorem lines_glued_stranded : ∃ past j,
    Run (stepBy .written) (ofSink faltering) past j ∧ faltering.content = [] ∧ j.close.1 = .ok () ∧
    Bytes.splitLines j.close.2.out.sink.content = ([bodyBytes lengthy ++ bodyBytes sample], []) := by
  -- Only the length of the first event matters, and nothing of the second one.
  obtain ⟨e, f, hl, he, hs⟩ : ∃ e f, (bodyBytes e).length = Buffered.capacity ∧ lengthy = e ∧
      sample = f := ⟨_, _, length_lengthy, rfl, rfl⟩
  rw [he, hs]
  obtain ⟨hk, hf⟩ := fragment_stranded hl
  obtain ⟨j, h, hok, hclose⟩ := run_stranded hl f
  obtain ⟨-, hclosed, -⟩ := lines_glued .written rfl h
  refine ⟨_, j, h, rfl, hclose, (hclosed hclose).1.trans ?_⟩
  have hk' : kept .written (stranded e, .event f) = [f] := by
    simp [kept, hok, Except.isOk, Except.toBool]
  simp [linesBehind, hk, hf, hk']

/-- A call fails, and what it leaves makes one line with the event of the next call. -/
theorem line_of_two : ∃ past j, Run step (ofSink faltering) past j ∧
    past.map Prod.snd = [.event lengthy, .event sample] ∧
    past.map (fun x => (x.1.answer x.2).1.isOk) = [false, true] ∧ j.close.1 = .ok () ∧
    j.close.2.out.sink.content = bodyBytes lengthy ++ lineBytes sample ∧
    readLine (bodyBytes lengthy ++ bodyBytes sample) = none ∧
    ∀ es : List Event, j.close.2.out.sink.content ≠ es.flatMap lineBytes := by
  -- Only the length of the first event matters, and nothing of the second one.
  obtain ⟨e, f, hl, he, hs⟩ : ∃ e f, (bodyBytes e).length = Buffered.capacity ∧ lengthy = e ∧
      sample = f := ⟨_, _, length_lengthy, rfl, rfl⟩
  rw [he, hs]
  have hfirst : ((ofSink faltering).answerBy .written (.event e)).1 =
      .error (.io (.bare .brokenPipe)) := congrArg Prod.fst (recordBy_stranded hl)
  obtain ⟨hk, hf⟩ := fragment_stranded hl
  obtain ⟨j, h, hok, hclose⟩ := run_stranded hl f
  have hcontent : j.close.2.out.sink.content = bodyBytes e ++ lineBytes f := by
    rw [content_closed h hclose, List.flatMap_cons, List.flatMap_singleton, addedBy_eq, hk, hf,
      addedBy_ok (x := (stranded e, .event f)) hok]
    simp [recorded, faltering, Sink.content, Sink.log]
  have hread : readLine (bodyBytes e ++ bodyBytes f) = none := by
    rw [bodyBytes, bodyBytes, ← Bytes.ofChars_append, readLine_ofChars, read_body_append]
  rw [answerBy_written] at hfirst hok
  rw [stepBy_written] at h
  refine ⟨_, j, h, rfl, ?_, hclose, hcontent, hread, fun es hes => ?_⟩
  · rw [List.map_cons, List.map_cons, hfirst, hok]
    rfl
  · have hsplit := splitLines_lines es
    have hnew : Bytes.newline ∉ bodyBytes e ++ bodyBytes f := by
      simp [newline_not_mem_bodyBytes]
    rw [← hes, hcontent, lineBytes_eq, ← List.append_assoc, Bytes.splitLines_append _ hnew] at hsplit
    -- The one line would be the body of an event, and would read.
    have hmem : bodyBytes e ++ bodyBytes f ∈ es.map bodyBytes := by
      rw [← (Prod.mk.inj hsplit).1]
      exact List.mem_cons_self
    obtain ⟨g, -, hg⟩ := List.mem_map.1 hmem
    rw [← hg, readLine_bodyBytes] at hread
    cases hread

end Journal
end Telemetry
