import Mathlib.Data.List.Forall2
import Telemetry.Proofs.Journal.Willing
import Telemetry.Proofs.Json.Number
import Telemetry.Proofs.Text.Cutting
/-!
The lines of a journal tell what it recorded.

Each line but for its line feed is one object, and no line feed stands inside of it. So the bytes of
a journal are cut into lines at the line feeds, each line is read as an object, and the object tells
everything about its event that a journal keeps: its kind, name, help text and tags, and its value,
if that is finite. The main statement is `lines_determine`.
-/

namespace Telemetry

theorem Quoted.newline_not_mem_inside (c : Char) : '\n' ∉ inside c := by
  have hx : ∀ n < 16, '\n' ≠ hexDigit n := by decide
  unfold inside escape?
  split_ifs with hq hb hs hbackspace htab hnewline hpage hreturn
  · simp
  · simp
  · have hc : '\n' ≠ c := by
      rintro rfl
      exact absurd hs (by decide)
    simpa using hc
  · simp
  · simp
  · simp
  · simp
  · simp
  · have hc : c.toNat < 32 := Nat.lt_of_not_le hs
    have hhigh := hx (c.toNat / 16) (by omega)
    have hlow := hx (c.toNat % 16) (by omega)
    simp [hhigh, hlow]

theorem Quoted.newline_not_mem_text (cs : List Char) : '\n' ∉ text cs := by
  simp [text, newline_not_mem_inside]

namespace Json

theorem newline_not_mem_objectText {ms : List (String × List Char)} (h : ∀ m ∈ ms, '\n' ∉ m.2) :
    '\n' ∉ objectText ms := by
  have hm : '\n' ∉ membersText ms := by
    induction ms with
    | nil => decide
    | cons m ms ih =>
      rw [List.forall_mem_cons] at h
      cases ms with
      | nil => simp [membersText, memberText, Quoted.newline_not_mem_text, h.1]
      | cons n ms => simp [membersText, memberText, Quoted.newline_not_mem_text, h.1, ih h.2]
  simp [objectText, hm]

/-- The value of a member of an object; of several ones with the key, of the first. -/
def get? (key : String) : Json → Option Json
  | .object ms => ms.lookup key
  | _ => none

def text? : Json → Option String
  | .text s => some s
  | _ => none

@[simp] theorem text?_text (s : String) : (text s).text? = some s := rfl

end Json

namespace Journal

/-! ## What a line says -/

def numberJson (x : Binary64) : Json :=
  if x.isFinite then .number (Decimal.finiteText numberLayout x) else .null

def tagsJson (tags : Tags) : Json := .object (tags.list.map fun tag => (tag.name, .text tag.value))

/-- The object that records an event. -/
def document (e : Event) : Json :=
  .object ([("type", .text (kind e.reading)), ("name", .text e.metric.name)] ++
    (if e.metric.help.isEmpty then [] else [("help", .text e.metric.help)]) ++
    [("value", numberJson (value e.reading))] ++
    (if e.metric.tags.isEmpty then [] else [("tags", tagsJson e.metric.tags)]))

/-- A line without its line feed. -/
def body (e : Event) : List Char := (objectPieces (members e)).flatten

theorem line_eq (e : Event) : line e = body e ++ ['\n'] := by
  simp [line, linePieces, body]

/-- The members of the object, each with its key, the pieces of its value, and its value. -/
def entries (e : Event) : List (String × List Piece × Json) :=
  [("type", textPieces (kind e.reading), .text (kind e.reading)),
   ("name", textPieces e.metric.name, .text e.metric.name)] ++
  (if e.metric.help.isEmpty then []
    else [("help", textPieces e.metric.help, .text e.metric.help)]) ++
  [("value", [numberText (value e.reading)], numberJson (value e.reading))] ++
  (if e.metric.tags.isEmpty then []
    else [("tags", tagsPieces e.metric.tags, tagsJson e.metric.tags)])

theorem members_eq (e : Event) : members e = (entries e).map fun m => memberPieces m.1 m.2.1 := by
  unfold members entries
  split <;> split <;> rfl

theorem document_eq (e : Event) : document e = .object ((entries e).map fun m => (m.1, m.2.2)) := by
  unfold document entries
  split <;> split <;> rfl

/-- Every value in the object is a text, the number, or the tags. -/
theorem forall_mem_entries {P : List Piece → Json → Prop} {e : Event}
    (text : ∀ s, P (textPieces s) (.text s))
    (number : P [numberText (value e.reading)] (numberJson (value e.reading)))
    (tags : P (tagsPieces e.metric.tags) (tagsJson e.metric.tags)) :
    ∀ m ∈ entries e, P m.2.1 m.2.2 := by
  unfold entries
  split <;> split <;> simp [text, number, tags]

theorem flatten_textPieces (s : String) : (textPieces s).flatten = Quoted.text s.toList :=
  Quoted.flatten_pieces s.toList

theorem flatten_memberPieces (key : String) (ps : List Piece) :
    (memberPieces key ps).flatten = Json.memberText key ps.flatten := by
  simp [memberPieces, Json.memberText, flatten_textPieces]

theorem flatten_separated (ms : List (String × List Piece)) :
    (separated (ms.map fun m => memberPieces m.1 m.2) ++ [['\x7d']]).flatten =
      Json.membersText (ms.map fun m => (m.1, m.2.flatten)) := by
  induction ms with
  | nil => rfl
  | cons m ms ih =>
    cases ms with
    | nil => simp [separated, Json.membersText, flatten_memberPieces]
    | cons n ms =>
      rw [List.map_cons, List.map_cons] at ih ⊢
      rw [separated, List.append_assoc, List.flatten_append, List.cons_append, List.flatten_cons, ih,
        flatten_memberPieces]
      rfl

theorem flatten_objectPieces (ms : List (String × List Piece)) :
    (objectPieces (ms.map fun m => memberPieces m.1 m.2)).flatten =
      Json.objectText (ms.map fun m => (m.1, m.2.flatten)) := by
  rw [objectPieces, List.cons_append, List.flatten_cons, flatten_separated]
  rfl

/-! ## A line reads as what it says -/

theorem reads_textPieces (s : String) : Json.Reads (textPieces s).flatten (.text s) := by
  rw [flatten_textPieces]
  exact Json.reads_text s

theorem endsWord_isNumeric {c : Char} (h : Decimal.isNumeric c = true) : Json.endsWord c = false := by
  have hends : ('"' :: Json.marks ++ Json.spaces).all (fun d => !Decimal.isNumeric d) = true := by
    decide
  by_contra he
  rw [Bool.not_eq_false, Json.endsWord, decide_eq_true_iff] at he
  have hc := List.all_eq_true.1 hends c he
  rw [h] at hc
  cases hc

theorem reads_numberText (x : Binary64) : Json.Reads (numberText x) (numberJson x) := by
  unfold numberText numberJson
  by_cases hx : x.isFinite = true
  · rw [if_pos hx, if_pos hx]
    have hall := List.all_eq_true.1 (Decimal.all_finiteText numberLayout x)
    have hnumber := Json.isNumber_finiteText numberLayout x
    refine Json.reads_word (fun c hc => endsWord_isNumeric (hall c hc)) ?_ ?_
    · intro hn
      rw [hn] at hnumber
      exact absurd hnumber (by decide)
    · rw [Json.ofWord?_number hnumber, String.ofList_toList]
  · have hnull : "null".toList.all (fun c => !Json.endsWord c) = true := by decide
    rw [if_neg hx, if_neg hx]
    refine Json.reads_word (fun c hc => ?_) (by decide) rfl
    simpa using List.all_eq_true.1 hnull c hc

theorem reads_objectPieces (ms : List (String × List Piece × Json))
    (h : ∀ m ∈ ms, Json.Reads m.2.1.flatten m.2.2) :
    Json.Reads (objectPieces (ms.map fun m => memberPieces m.1 m.2.1)).flatten
      (.object (ms.map fun m => (m.1, m.2.2))) := by
  have hl := flatten_objectPieces (ms.map fun m => (m.1, m.2.1))
  have hr : ∀ m ∈ ms.map fun m => (m.1, m.2.1.flatten, m.2.2), Json.Reads m.2.1 m.2.2 := by
    rintro m hm
    obtain ⟨n, hn, rfl⟩ := List.mem_map.1 hm
    exact h n hn
  have ho := Json.reads_object hr
  simp only [List.map_map, Function.comp_def] at hl ho
  rw [hl]
  exact ho

theorem reads_tagsPieces (tags : Tags) : Json.Reads (tagsPieces tags).flatten (tagsJson tags) := by
  have ho := reads_objectPieces
    (tags.list.map fun tag => (tag.name, textPieces tag.value, .text tag.value))
  simp only [List.map_map, Function.comp_def, List.forall_mem_map] at ho
  exact ho fun tag _ => reads_textPieces tag.value

/-- A line but for its line feed is read as the object that records its event. -/
theorem reads_body (e : Event) : Json.Reads (body e) (document e) := by
  unfold body
  rw [members_eq, document_eq]
  refine reads_objectPieces _ (forall_mem_entries (P := fun ps v => Json.Reads ps.flatten v)
    reads_textPieces ?_ (reads_tagsPieces e.metric.tags))
  rw [List.flatten_singleton]
  exact reads_numberText (value e.reading)

/-- A body ends where it ends: what follows it on the same line makes the line unreadable. -/
theorem read_body_append (e f : Event) : Json.read (body e ++ body f) = none := by
  have hf : body f = '\x7b' :: (separated (members f) ++ [['\x7d']]).flatten := rfl
  rw [hf]
  exact (reads_body e).read_append _

/-! ## Lines -/

theorem newline_not_mem_numberText (x : Binary64) : '\n' ∉ numberText x := by
  unfold numberText
  by_cases hx : x.isFinite = true
  · rw [if_pos hx]
    exact Text.not_mem_of_all (Decimal.all_finiteText numberLayout x) (by decide)
  · rw [if_neg hx]
    decide

theorem newline_not_mem_objectPieces (ms : List (String × List Piece))
    (h : ∀ m ∈ ms, '\n' ∉ m.2.flatten) :
    '\n' ∉ (objectPieces (ms.map fun m => memberPieces m.1 m.2)).flatten := by
  rw [flatten_objectPieces]
  refine Json.newline_not_mem_objectText fun m hm => ?_
  obtain ⟨n, hn, rfl⟩ := List.mem_map.1 hm
  exact h n hn

theorem newline_not_mem_body (e : Event) : '\n' ∉ body e := by
  have htext : ∀ s : String, '\n' ∉ (textPieces s).flatten := by
    intro s
    rw [flatten_textPieces]
    exact Quoted.newline_not_mem_text s.toList
  have hvalue : '\n' ∉ [numberText (value e.reading)].flatten := by
    rw [List.flatten_singleton]
    exact newline_not_mem_numberText _
  have htags : '\n' ∉ (tagsPieces e.metric.tags).flatten := by
    have ho := newline_not_mem_objectPieces
      (e.metric.tags.list.map fun tag => (tag.name, textPieces tag.value))
    simp only [List.map_map, Function.comp_def, List.forall_mem_map] at ho
    exact ho fun tag _ => htext tag.value
  have hall := forall_mem_entries (P := fun ps _ => '\n' ∉ ps.flatten) htext hvalue htags
  have ho := newline_not_mem_objectPieces ((entries e).map fun m => (m.1, m.2.1))
  simp only [List.map_map, Function.comp_def, List.forall_mem_map] at ho
  unfold body
  rw [members_eq]
  exact ho hall

def bodyBytes (e : Event) : Bytes := Bytes.ofChars (body e)

theorem lineBytes_eq (e : Event) : lineBytes e = bodyBytes e ++ [Bytes.newline] := by
  rw [lineBytes, line_eq, Bytes.ofChars_append]
  rfl

theorem ofText_body (e : Event) : Bytes.ofText (String.ofList (body e)) = bodyBytes e := by
  rw [Bytes.ofText, String.toList_ofList]
  rfl

theorem newline_not_mem_bodyBytes (e : Event) : Bytes.newline ∉ bodyBytes e := by
  rw [← ofText_body]
  apply Bytes.newline_not_mem_ofText
  rw [String.toList_ofList]
  exact newline_not_mem_body e

/-- The lines of several events are cut where one ends and the next one begins. -/
theorem splitLines_lines (es : List Event) :
    Bytes.splitLines (es.flatMap lineBytes) = (es.map bodyBytes, []) := by
  induction es with
  | nil => rfl
  | cons e es ih =>
    rw [List.flatMap_cons, lineBytes_eq, List.append_assoc, List.singleton_append,
      Bytes.splitLines_append _ (newline_not_mem_bodyBytes e), ih]
    rfl

/-- What a line of bytes reads as. -/
def readLine (line : Bytes) : Option Json := (Bytes.toText? line).bind fun s => Json.read s.toList

theorem readLine_ofChars (cs : List Char) : readLine (Bytes.ofChars cs) = Json.read cs := by
  have ht := Bytes.toText?_ofText (String.ofList cs)
  rw [Bytes.ofText, String.toList_ofList] at ht
  rw [readLine, ht, Option.bind_some, String.toList_ofList]

theorem readLine_bodyBytes (e : Event) : readLine (bodyBytes e) = some (document e) := by
  rw [bodyBytes, readLine_ofChars]
  exact (reads_body e).read

/-! ## What an object tells -/

/-- What a journal keeps of an event. The value is there if it is finite. -/
structure Entry where
  kind : String
  name : String
  help : String
  value : Option String
  tags : List Tag

namespace Entry

def valueText (x : Binary64) : Option String :=
  if x.isFinite then some (Decimal.finiteText numberLayout x) else none

def ofEvent (e : Event) : Entry :=
  ⟨Journal.kind e.reading, e.metric.name, e.metric.help, valueText (Journal.value e.reading),
    e.metric.tags.list⟩

def value? : Json → Option (Option String)
  | .null => some none
  | .number text => some (some text)
  | _ => none

def tags? : Json → Option (List Tag)
  | .object ms => ms.mapM fun m => m.2.text?.map fun value => ⟨m.1, value⟩
  | _ => none

/-- The entry in an object. No help text is an empty one, and no tags are an empty object. -/
def ofJson? (v : Json) : Option Entry := do
  let kind ← (v.get? "type").bind Json.text?
  let name ← (v.get? "name").bind Json.text?
  let help ← ((v.get? "help").getD (.text "")).text?
  let value ← (v.get? "value").bind value?
  let tags ← tags? ((v.get? "tags").getD (.object []))
  some ⟨kind, name, help, value, tags⟩

theorem value?_numberJson (x : Binary64) : value? (numberJson x) = some (valueText x) := by
  unfold numberJson valueText
  split <;> rfl

theorem tags?_tagsJson (tags : Tags) : tags? (tagsJson tags) = some tags.list := by
  show (tags.list.map fun tag => (tag.name, Json.text tag.value)).mapM _ = some tags.list
  induction tags.list with
  | nil => rfl
  | cons tag tags ih =>
    rw [List.map_cons, List.mapM_cons, ih]
    rfl

end Entry

/-- The object tells what the event's entry is, and it has no members without content. -/
structure Tells (v : Json) (e : Event) : Prop where
  entry : Entry.ofJson? v = some (.ofEvent e)
  help : v.get? "help" = none ↔ e.metric.help = ""
  value : v.get? "value" = some .null ↔ (value e.reading).isFinite = false
  tags : v.get? "tags" = none ↔ e.metric.tags.list = []

theorem get?_document (e : Event) :
    (document e).get? "type" = some (.text (kind e.reading)) ∧
    (document e).get? "name" = some (.text e.metric.name) ∧
    (document e).get? "help" =
      (if e.metric.help.isEmpty then none else some (.text e.metric.help)) ∧
    (document e).get? "value" = some (numberJson (value e.reading)) ∧
    (document e).get? "tags" =
      (if e.metric.tags.isEmpty then none else some (tagsJson e.metric.tags)) := by
  unfold document
  split <;> split <;> exact ⟨rfl, rfl, rfl, rfl, rfl⟩

theorem tells_document (e : Event) : Tells (document e) e := by
  obtain ⟨htype, hname, hhelp, hvalue, htags⟩ := get?_document e
  have hh : e.metric.help.isEmpty = true ↔ e.metric.help = "" := String.isEmpty_iff
  have ht : e.metric.tags.isEmpty = true ↔ e.metric.tags.list = [] := List.isEmpty_iff
  constructor
  · have hhelp' : (((document e).get? "help").getD (.text "")).text? = some e.metric.help := by
      rw [hhelp]
      split
      · next h => rw [hh.1 h]; rfl
      · rfl
    have htags' : Entry.tags? (((document e).get? "tags").getD (.object [])) =
        some e.metric.tags.list := by
      rw [htags]
      split
      · next h => rw [ht.1 h]; rfl
      · exact Entry.tags?_tagsJson e.metric.tags
    simp [Entry.ofJson?, htype, hname, hhelp', hvalue, htags', Entry.value?_numberJson, Entry.ofEvent]
  · rw [hhelp, ← hh]
    simp
  · rw [hvalue, numberJson]
    simp
  · rw [htags, ← ht]
    simp

/-! ## Events that are told apart -/

/-- Events that agree on everything that a journal keeps. A value that is not finite is like any
other one. -/
structure Alike (e f : Event) : Prop where
  kind : Journal.kind e.reading = Journal.kind f.reading
  name : e.metric.name = f.metric.name
  help : e.metric.help = f.metric.help
  value : Journal.value e.reading = Journal.value f.reading ∨
    (Journal.value e.reading).isFinite = false ∧ (Journal.value f.reading).isFinite = false
  tags : e.metric.tags.list = f.metric.tags.list

/-- Finite numbers with the same text are the same, down to the sign of zero. -/
theorem valueText_inj {x y : Binary64} : Entry.valueText x = Entry.valueText y ↔
    x = y ∨ x.isFinite = false ∧ y.isFinite = false := by
  have hne : x.isFinite ≠ y.isFinite → x ≠ y := fun h he => h (congrArg _ he)
  unfold Entry.valueText
  cases hx : x.isFinite with
  | false =>
    cases hy : y.isFinite with
    | false => simp
    | true => simp [hne (by simp [hx, hy])]
  | true =>
    cases hy : y.isFinite with
    | false => simp [hne (by simp [hx, hy])]
    | true =>
      simp only [if_true, Option.some_inj, Bool.true_eq_false, and_self, or_false]
      constructor
      · intro h
        rw [← Decimal.readSigned_finiteText numberLayout hx, h,
          Decimal.readSigned_finiteText numberLayout hy]
      · rintro rfl
        rfl

theorem alike_iff (e f : Event) : Alike e f ↔ Entry.ofEvent e = Entry.ofEvent f := by
  constructor
  · intro h
    simp only [Entry.ofEvent, h.kind, h.name, h.help, h.tags, valueText_inj.2 h.value]
  · intro h
    injection h with hkind hname hhelp hvalue htags
    exact ⟨hkind, hname, hhelp, valueText_inj.1 hvalue, htags⟩

theorem numberText_eq (x : Binary64) : numberText x = ((Entry.valueText x).getD "null").toList := by
  unfold numberText Entry.valueText
  split <;> rfl

/-- A line is made of its entry. -/
theorem lineBytes_congr {e f : Event} (h : Entry.ofEvent e = Entry.ofEvent f) :
    lineBytes e = lineBytes f := by
  injection h with hkind hname hhelp hvalue htags
  have ht : e.metric.tags = f.metric.tags := congrArg Tags.mk htags
  have hm : members e = members f := by
    unfold members
    rw [hkind, hname, hhelp, ht, numberText_eq, numberText_eq, hvalue]
  rw [lineBytes_eq, lineBytes_eq, bodyBytes, bodyBytes, body, body, hm]

/-- A line tells its entry. -/
theorem alike_of_bodyBytes {e f : Event} (h : bodyBytes e = bodyBytes f) : Alike e f := by
  have hd := readLine_bodyBytes f
  rw [← h, readLine_bodyBytes, Option.some_inj] at hd
  have he := (tells_document e).entry
  rw [hd, (tells_document f).entry, Option.some_inj] at he
  exact (alike_iff e f).2 he.symm

theorem flatMap_lineBytes_iff (es fs : List Event) :
    es.flatMap lineBytes = fs.flatMap lineBytes ↔ List.Forall₂ Alike es fs := by
  constructor
  · intro h
    have hs := splitLines_lines fs
    rw [← h, splitLines_lines, Prod.mk.injEq] at hs
    have hl : es.map bodyBytes = fs.map bodyBytes := hs.1
    clear h hs
    induction es generalizing fs with
    | nil =>
      rw [List.map_eq_nil_iff.1 hl.symm]
      exact .nil
    | cons e es ih =>
      obtain ⟨f, fs', rfl, hf, hr⟩ := List.map_eq_cons_iff.1 hl.symm
      exact .cons (alike_of_bodyBytes hf.symm) (ih fs' hr.symm)
  · intro h
    induction h with
    | nil => rfl
    | cons hd _ ih =>
      rw [List.flatMap_cons, List.flatMap_cons, lineBytes_congr ((alike_iff _ _).1 hd), ih]

/-- A sink that takes one byte at first and interrupts the next write. -/
def reluctant : Sink where
  writes := ⟨[⟨0, .take (some 1)⟩, ⟨0, .fail (.bare .interrupted)⟩], ⟨0, .take none⟩⟩
  flushes := .constant ⟨0, none⟩
  limits := .constant ⟨0, none⟩
  past := []
  settles := rfl

theorem willing_reluctant : reluctant.Willing := by
  constructor
  · have hi : (IoError.bare .interrupted).isInterrupted = true := rfl
    simp [Feed.All, reluctant, WriteAnswer.isWilling, hi]
  · simp [Feed.All, reluctant, Feed.constant]

theorem willing_ideal : Sink.ideal.Willing := by
  constructor
  · simp [Feed.All, Sink.ideal, Feed.constant, WriteAnswer.isWilling]
  · simp [Feed.All, Sink.ideal, Feed.constant]

/-- A name with a quotation mark, a backslash and a line feed, a tag that occurs twice, a tag
without name and value, and an infinite value with a sign. -/
def awkward (negative : Bool) : List Event :=
  [⟨⟨"a\"b\\c\n", "", ⟨[⟨"k", "\x01"⟩, ⟨"", ""⟩, ⟨"k", "\x01"⟩]⟩⟩, .set (.infinite negative)⟩,
   ⟨⟨"", "latency", .empty⟩, .observe (.clamp 1500000)⟩]

example : (awkward true).map (fun e => String.ofList (body e)) =
    ["\x7b\"type\":\"gauge\",\"name\":\"a\\\"b\\\\c\\n\",\"value\":null,\"tags\":\x7b\"k\":" ++
        "\"\\u0001\",\"\":\"\",\"k\":\"\\u0001\"\x7d\x7d",
      "\x7b\"type\":\"histogram\",\"name\":\"\",\"help\":\"latency\",\"value\":0.0015\x7d"] := by
  decide +kernel

end Journal
end Telemetry
