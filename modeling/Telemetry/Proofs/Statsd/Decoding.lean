import Mathlib.Data.List.Forall2
import Telemetry.Proofs.Number.Reading
import Telemetry.Relay.Codec
/-!
What a receiver reads in a stream of StatsD lines.

The receiver knows the scope. It cuts the stream at line feeds, and a line without its scope at the
first colon, at the bars behind the value and the kind, and the tags at commas and each at its first
colon. Nothing is escaped, so a name must not hold a colon and a tag no comma; a colon in the scope
or in a tag's value does no harm, and neither does a bar anywhere. The main statement is
`stream_determines`: the stream is cut into the lines of the events, each line tells its event, and
two lists of events with the same stream agree event by event.
-/

namespace Telemetry

/-- The same kind, and the same number or the same number of milliseconds. -/
def Reading.Agrees : Reading → Reading → Prop
  | .set v, .set w => v.Equals w
  | .add v, .add w => v.Equals w
  | .observe c, .observe d => c.toMillis = d.toMillis
  | _, _ => False

/-- What a stream can tell of two events is the same. -/
structure Event.Agrees (e f : Event) : Prop where
  name : e.metric.name = f.metric.name
  tags : e.metric.tags.list = f.metric.tags.list
  reading : e.reading.Agrees f.reading

namespace Statsd

/-! ## Numbers -/

theorem units_of_isWhole {x : Binary64} (h : x.isWhole = true) :
    x.units = x.whole * Binary64.one := by
  have hm : x.units % Binary64.one = 0 := of_decide_eq_true h
  unfold Binary64.whole
  rw [Nat.div_mul_cancel (Nat.dvd_of_mod_eq_zero hm)]

theorem toBinary64_whole {x : Binary64} (h : x.isFinite = true) (hw : x.isWhole = true) :
    (⟨x.whole, 0⟩ : Decimal).toBinary64 = x.abs := by
  have hr := Binary64.rank_of_units h
  rw [units_of_isWhole hw] at hr
  have hn : (⟨x.whole, 0⟩ : Decimal).numerator = x.whole := Nat.mul_one _
  have hd : (⟨x.whole, 0⟩ : Decimal).denominator = 1 := rfl
  unfold Decimal.toBinary64 Binary64.ofRatio Binary64.abs
  simp only [hn, hd, hr]

/-- The text of a number is read as that number, except that zero is read without its sign. -/
theorem readSigned_numberText {x : Binary64} (h : x.isFinite = true) :
    Decimal.readSigned (numberText x).toList = if x.rank = 0 then .zero else x := by
  unfold numberText
  split
  · next hb =>
    simp only [Bool.and_eq_true, decide_eq_true_eq] at hb
    have hr : (Decimal.read (Decimal.wholeText x.whole).toList).toBinary64 = x.abs := by
      rw [Decimal.read_wholeText]
      exact toBinary64_whole h hb.1
    have ho := Decimal.opens_wholeText x.whole
    by_cases hz : x.rank = 0
    · have hw : x.whole = 0 := by rw [Binary64.whole, Binary64.units_zero hz, Nat.zero_div]
      have hs : (x.negative && x.whole != 0) = false := by simp [hw]
      rw [hs, if_neg Bool.false_ne_true, String.empty_append, Decimal.readSigned_opens ho, hr,
        if_pos hz]
      cases x
      cases hz
      rfl
    · have hw : x.whole ≠ 0 := by
        intro hw
        apply hz
        apply Binary64.rank_of_units_zero h
        rw [units_of_isWhole hb.1, hw, Nat.zero_mul]
      have hs : (x.negative && x.whole != 0) = x.negative := by simp [hw]
      rw [hs, Decimal.readSigned_sign ho hr, if_neg hz]
  · next hb =>
    have hz : x.rank ≠ 0 := by
      intro hz
      apply hb
      simp [Binary64.isWhole, Binary64.whole, Binary64.units_zero hz, wholeBelow]
    rw [Decimal.readSigned_finiteText numberLayout h, if_neg hz]

theorem all_numberText (x : Binary64) :
    (numberText x).toList.all Decimal.isNumeric = true := by
  unfold numberText
  split
  · rw [String.toList_append, List.all_append, Decimal.all_wholeText, Bool.and_true]
    split <;> rfl
  · exact Decimal.all_finiteText numberLayout x

theorem numberText_zero {x : Binary64} (h : x.rank = 0) :
    numberText x = Decimal.wholeText 0 := by
  simp [numberText, Binary64.isWhole, Binary64.whole, Binary64.units_zero h, wholeBelow]

/-- Numbers have the same text if they are the same number, and only then. -/
theorem numberText_eq_iff {x y : Binary64} (hx : x.isFinite = true) (hy : y.isFinite = true) :
    numberText x = numberText y ↔ x.Equals y := by
  constructor
  · intro h
    have hr := readSigned_numberText hx
    rw [h, readSigned_numberText hy] at hr
    by_cases hxz : x.rank = 0
    · by_cases hyz : y.rank = 0
      · exact Or.inr ⟨hxz, hyz⟩
      · rw [if_neg hyz, if_pos hxz] at hr
        exact absurd (congrArg Binary64.rank hr) hyz
    · by_cases hyz : y.rank = 0
      · rw [if_pos hyz, if_neg hxz] at hr
        exact absurd (congrArg Binary64.rank hr.symm) hxz
      · rw [if_neg hyz, if_neg hxz] at hr
        exact Or.inl hr.symm
  · rintro (h | ⟨hxz, hyz⟩)
    · rw [h]
    · rw [numberText_zero hxz, numberText_zero hyz]

/-! ## Lines -/

/-- A line without its line feed. -/
def body (s : Statsd) (e : Event) : String :=
  s.lead ++ e.metric.name ++ ":" ++ numberText (value e.reading) ++ "|" ++ kindText e.reading ++
    tagsText e.metric.tags

/-- What a line tells of an event. -/
structure Parts where
  name : String
  value : String
  kind : String
  tags : List Tag
  deriving DecidableEq, Repr

def partsOf (e : Event) : Parts :=
  ⟨e.metric.name, numberText (value e.reading), kindText e.reading, e.metric.tags.list⟩

def readTag (cs : List Char) : Tag :=
  let (name, value) := Text.around ':' cs
  ⟨String.ofList name, String.ofList value⟩

/-- The tags in what stands behind the kind. -/
def readTags : List Char → List Tag
  | '#' :: cs => (Text.pieces (· == ',') cs).map readTag
  | _ => []

def readLine (s : Statsd) (line : String) : Parts :=
  let (name, rest) := Text.around ':' (line.toList.drop s.lead.toList.length)
  let (value, rest) := Text.around '|' rest
  let (kind, rest) := Text.around '|' rest
  ⟨String.ofList name, String.ofList value, String.ofList kind, readTags rest⟩

/-- A tag without the characters that its line is cut at. -/
structure CleanTag (tag : Tag) : Prop where
  name_colon : ':' ∉ tag.name.toList
  name_comma : ',' ∉ tag.name.toList
  name_newline : '\n' ∉ tag.name.toList
  value_comma : ',' ∉ tag.value.toList
  value_newline : '\n' ∉ tag.value.toList

/-- An event that the encoder takes and whose line can be cut into its parts. -/
structure Clean (e : Event) : Prop where
  set_finite : ∀ v, e.reading = .set v → v.isFinite = true
  add_finite : ∀ v, e.reading = .add v → v.isFinite = true
  name_some : e.metric.name ≠ ""
  name_colon : ':' ∉ e.metric.name.toList
  name_newline : '\n' ∉ e.metric.name.toList
  tags : ∀ tag ∈ e.metric.tags.list, CleanTag tag

/-- A span of time is finite in any case. -/
theorem Clean.finite {e : Event} (h : Clean e) : (value e.reading).isFinite = true := by
  cases hr : e.reading with
  | set v => exact h.set_finite v hr
  | add v => exact h.add_finite v hr
  | observe span => exact span.isFinite_toMillis

theorem encode_clean (s : Statsd) {e : Event} (h : Clean e) : s.encode e = .ok (s.line e) := by
  have hn : e.metric.name.isEmpty = false := by simp [h.name_some]
  simp [encode, h.finite, hn]

theorem codec_clean (s : Statsd) {e : Event} (h : Clean e) :
    s.codec e = .done (Bytes.ofText (s.line e)) := by
  unfold codec
  rw [encode_clean s h]

theorem not_mem_numberText {c : Char} (h : Decimal.isNumeric c = false) (x : Binary64) :
    c ∉ (numberText x).toList :=
  Text.not_mem_of_all (all_numberText x) h

theorem not_mem_kindText {c : Char} (h : c.isLower = false) (r : Reading) :
    c ∉ (kindText r).toList := by
  have hk : (kindText r).toList.all Char.isLower = true := by
    cases r <;> simp [kindText]
  exact Text.not_mem_of_all hk h

theorem readTag_tagText {tag : Tag} (h : CleanTag tag) : readTag (tagText tag).toList = tag := by
  unfold readTag tagText
  by_cases hv : tag.value = ""
  · have he : tag.value.isEmpty = true := by simp [hv]
    rw [if_pos he, Text.around_self h.name_colon]
    show Tag.mk (String.ofList tag.name.toList) "" = tag
    rw [String.ofList_toList, ← hv]
  · have he : ¬tag.value.isEmpty = true := by simp [hv]
    have hl : (tag.name ++ ":" ++ tag.value).toList = tag.name.toList ++ ':' :: tag.value.toList := by
      simp
    rw [if_neg he, hl, Text.around_append _ h.name_colon]
    show Tag.mk (String.ofList tag.name.toList) (String.ofList tag.value.toList) = tag
    rw [String.ofList_toList, String.ofList_toList]

theorem not_mem_tagText {c : Char} {tag : Tag} (hc : c ≠ ':') (hn : c ∉ tag.name.toList)
    (hv : c ∉ tag.value.toList) : c ∉ (tagText tag).toList := by
  unfold tagText
  split
  · exact hn
  · simp [hc, hn, hv]

theorem toList_tagsText {tags : Tags} (h : tags.list ≠ []) :
    (tagsText tags).toList =
      '|' :: '#' :: (String.intercalate "," (tags.list.map tagText)).toList := by
  have he : tags.isEmpty = false := by simp [Tags.isEmpty, h]
  simp [tagsText, he]

theorem pieces_tagTexts {tags : List Tag} (hn : tags ≠ []) (h : ∀ tag ∈ tags, CleanTag tag) :
    (Text.pieces (· == ',') (String.intercalate "," (tags.map tagText)).toList).map readTag =
      tags := by
  have hc : ∀ t ∈ tags.map tagText, ',' ∉ t.toList := by
    intro t ht
    obtain ⟨tag, hm, rfl⟩ := List.mem_map.1 ht
    exact not_mem_tagText (by decide) (h tag hm).name_comma (h tag hm).value_comma
  have hp := Text.pieces_intercalate (mt List.map_eq_nil_iff.1 hn) hc
  have hr : ∀ tag ∈ tags, ((readTag ∘ String.toList) ∘ tagText) tag = id tag :=
    fun tag hm => readTag_tagText (h tag hm)
  rw [show String.singleton ',' = "," from rfl] at hp
  rw [hp, List.map_map, List.map_map, List.map_congr_left hr, List.map_id]

/-- What stands behind the value of a line gives the kind and the tags. -/
theorem around_kind {e : Event} (h : Clean e) :
    let r := Text.around '|' ((kindText e.reading).toList ++ (tagsText e.metric.tags).toList)
    r.1 = (kindText e.reading).toList ∧ readTags r.2 = e.metric.tags.list := by
  have hk := not_mem_kindText (c := '|') (by decide) e.reading
  by_cases ht : e.metric.tags.list = []
  · have hs : tagsText e.metric.tags = "" := by simp [tagsText, Tags.isEmpty, ht]
    simp [hs, Text.around_self hk, readTags, ht]
  · rw [toList_tagsText ht, Text.around_append _ hk]
    exact ⟨rfl, pieces_tagTexts ht h.tags⟩

/-- A line is read as the parts that it was made of. -/
theorem readLine_body (s : Statsd) {e : Event} (h : Clean e) :
    s.readLine (s.body e) = partsOf e := by
  have hl : (s.body e).toList.drop s.lead.toList.length =
      e.metric.name.toList ++ ':' :: ((numberText (value e.reading)).toList ++
        '|' :: ((kindText e.reading).toList ++ (tagsText e.metric.tags).toList)) := by
    simp [body]
  have hv := not_mem_numberText (c := '|') (by decide) (value e.reading)
  obtain ⟨hk, ht⟩ := around_kind h
  unfold readLine
  rw [hl, Text.around_append _ h.name_colon]
  dsimp only
  rw [Text.around_append _ hv]
  dsimp only
  rw [hk, ht]
  simp [partsOf]

theorem newline_not_mem_tagsText {tags : Tags} (h : ∀ tag ∈ tags.list, CleanTag tag) :
    '\n' ∉ (tagsText tags).toList := by
  by_cases hn : tags.list = []
  · simp [tagsText, Tags.isEmpty, hn]
  · rw [toList_tagsText hn]
    intro hm
    simp only [List.mem_cons, Char.reduceEq, false_or] at hm
    rcases Text.mem_intercalate (c := ',') hm with hc | ⟨t, ht, hm⟩
    · cases hc
    · obtain ⟨tag, htag, rfl⟩ := List.mem_map.1 ht
      exact not_mem_tagText (by decide) (h tag htag).name_newline (h tag htag).value_newline hm

theorem newline_not_mem_body {s : Statsd} (hs : '\n' ∉ s.scope.toList) {e : Event} (h : Clean e) :
    '\n' ∉ (s.body e).toList := by
  have hl : '\n' ∉ s.lead.toList := by
    unfold lead
    split
    · simp
    · simp [hs]
  have hv := not_mem_numberText (c := '\n') (by decide) (value e.reading)
  have hk := not_mem_kindText (c := '\n') (by decide) e.reading
  simp [body, hl, h.name_newline, hv, hk, newline_not_mem_tagsText h.tags]

/-! ## Streams -/

/-- The bytes that the encoder appends for some events. -/
def stream (s : Statsd) (es : List Event) : Bytes := es.flatMap fun e => (s.codec e).bytes

/-- What the lines of a stream tell. -/
def readStream (s : Statsd) (b : Bytes) : List (Option Parts) :=
  (Bytes.splitLines b).1.map fun line => (Bytes.toText? line).map s.readLine

theorem stream_cons {s : Statsd} {e : Event} (h : Clean e) (es : List Event) :
    s.stream (e :: es) = Bytes.ofText (s.body e) ++ Bytes.newline :: s.stream es := by
  have hb : Bytes.ofText "\n" = [Bytes.newline] := rfl
  have hl : s.line e = s.body e ++ "\n" := rfl
  unfold stream
  rw [List.flatMap_cons, codec_clean s h, hl, Encoded.bytes, Bytes.ofText_append, hb,
    List.append_assoc, List.singleton_append]

theorem splitLines_stream {s : Statsd} (hs : '\n' ∉ s.scope.toList) {es : List Event}
    (h : ∀ e ∈ es, Clean e) :
    Bytes.splitLines (s.stream es) = (es.map fun e => Bytes.ofText (s.body e), []) := by
  induction es with
  | nil => rfl
  | cons e es ih =>
    have he := h e List.mem_cons_self
    have hn := Bytes.newline_not_mem_ofText (newline_not_mem_body hs he)
    rw [stream_cons he, Bytes.splitLines_append _ hn, ih fun f hf => h f (List.mem_cons_of_mem e hf)]
    rfl

theorem readStream_stream {s : Statsd} (hs : '\n' ∉ s.scope.toList) {es : List Event}
    (h : ∀ e ∈ es, Clean e) : s.readStream (s.stream es) = (es.map partsOf).map some := by
  unfold readStream
  rw [splitLines_stream hs h, List.map_map, List.map_map]
  apply List.map_congr_left
  intro e he
  rw [Function.comp_apply, Bytes.toText?_ofText, Option.map_some, readLine_body s (h e he),
    Function.comp_apply]

theorem agrees_reading_iff {q r : Reading} (hq : (value q).isFinite = true)
    (hr : (value r).isFinite = true) :
    q.Agrees r ↔ numberText (value q) = numberText (value r) ∧ kindText q = kindText r := by
  rw [numberText_eq_iff hq hr]
  cases q with
  | set v => cases r <;> simp [Reading.Agrees, value, kindText]
  | add v => cases r <;> simp [Reading.Agrees, value, kindText]
  | observe c =>
    cases r with
    | set w => simp [Reading.Agrees, kindText]
    | add w => simp [Reading.Agrees, kindText]
    | observe d =>
      constructor
      · intro h
        exact ⟨Or.inl h, rfl⟩
      · rintro ⟨h, -⟩
        exact h.eq (c.negative_toMillis.trans d.negative_toMillis.symm)

theorem agrees_iff {e f : Event} (he : Clean e) (hf : Clean f) :
    e.Agrees f ↔ partsOf e = partsOf f := by
  have hr := agrees_reading_iff he.finite hf.finite
  constructor
  · intro h
    obtain ⟨hv, hk⟩ := hr.1 h.reading
    unfold partsOf
    rw [h.name, h.tags, hv, hk]
  · intro h
    injection h with hn hv hk ht
    exact ⟨hn, ht, hr.2 ⟨hv, hk⟩⟩

/-- A line is made of its parts. -/
theorem body_congr (s : Statsd) {e f : Event} (h : partsOf e = partsOf f) : s.body e = s.body f := by
  injection h with hn hv hk ht
  have htags : e.metric.tags = f.metric.tags := congrArg Tags.mk ht
  unfold body
  rw [hn, hv, hk, htags]

theorem forall₂_agrees_iff {es fs : List Event} (he : ∀ e ∈ es, Clean e)
    (hf : ∀ f ∈ fs, Clean f) :
    List.Forall₂ Event.Agrees es fs ↔ es.map partsOf = fs.map partsOf := by
  induction es generalizing fs with
  | nil => simp [eq_comm]
  | cons e es ih =>
    cases fs with
    | nil => simp
    | cons f fs =>
      rw [List.forall_mem_cons] at he hf
      rw [List.forall₂_cons, agrees_iff he.1 hf.1, ih he.2 hf.2, List.map_cons, List.map_cons,
        List.cons_eq_cons]

theorem stream_congr {s : Statsd} {es fs : List Event} (he : ∀ e ∈ es, Clean e)
    (hf : ∀ f ∈ fs, Clean f) (h : es.map partsOf = fs.map partsOf) : s.stream es = s.stream fs := by
  induction es generalizing fs with
  | nil =>
    rw [List.map_eq_nil_iff.1 h.symm]
  | cons e es ih =>
    cases fs with
    | nil => cases h
    | cons f fs =>
      rw [List.forall_mem_cons] at he hf
      rw [List.map_cons, List.map_cons, List.cons_eq_cons] at h
      rw [stream_cons he.1, stream_cons hf.1, body_congr s h.1, ih he.2 hf.2 h.2]

/-- Clean events are all encoded, each into a line of the stream that tells its parts, and the
stream is that of other clean events exactly if they agree one by one. -/
theorem stream_determines (s : Statsd) (hs : '\n' ∉ s.scope.toList) (es : List Event)
    (he : ∀ e ∈ es, Clean e) :
    (∀ e ∈ es, s.codec e = .done (Bytes.ofText (s.line e))) ∧
    Bytes.splitLines (s.stream es) = (es.map fun e => Bytes.ofText (s.body e), []) ∧
    s.readStream (s.stream es) = (es.map partsOf).map some ∧
    ∀ fs, (∀ f ∈ fs, Clean f) →
      (s.stream es = s.stream fs ↔ List.Forall₂ Event.Agrees es fs) := by
  refine ⟨fun e hm => codec_clean s (he e hm), splitLines_stream hs he, readStream_stream hs he, ?_⟩
  intro fs hf
  rw [forall₂_agrees_iff he hf]
  constructor
  · intro h
    have hr := readStream_stream hs he
    rw [h, readStream_stream hs hf] at hr
    exact (List.map_inj_right fun _ _ => Option.some.inj).1 hr.symm
  · exact stream_congr he hf

/-- The least whole number that is written like a fraction, a zero with a sign or without, and tags
with empty parts. -/
def sample (negative : Bool) : List Event :=
  [⟨⟨"load", "", ⟨[]⟩⟩, .set (.ofNat wholeBelow)⟩,
   ⟨⟨"a|b", "", ⟨[⟨"", ""⟩]⟩⟩, .add { Binary64.zero with negative }⟩,
   ⟨⟨"rt", "", ⟨[⟨"k", ""⟩, ⟨"", "v:w"⟩, ⟨"k", ""⟩]⟩⟩, .observe (.clamp 1500000)⟩]

theorem clean_sample (negative : Bool) : ∀ e ∈ sample negative, Clean e := by
  have hf : (Binary64.ofNat wholeBelow).isFinite = true := by decide +kernel
  have hz : Binary64.isFinite { Binary64.zero with negative } = true := by decide +revert
  have ht : ∀ tag ∈ ([⟨"", ""⟩, ⟨"k", ""⟩, ⟨"", "v:w"⟩] : List Tag), CleanTag tag := by
    intro tag h
    simp only [List.mem_cons, List.not_mem_nil, or_false] at h
    rcases h with rfl | rfl | rfl <;> constructor <;> simp
  simp only [sample, List.forall_mem_cons]
  refine ⟨⟨?_, ?_, ?_, ?_, ?_, ?_⟩, ⟨?_, ?_, ?_, ?_, ?_, ?_⟩, ⟨?_, ?_, ?_, ?_, ?_, ?_⟩, ?_⟩
  all_goals simp [hf, hz, ht]

/-- The sign of zero is what a stream does not tell; the scope has a colon. -/
theorem stream_determines_zeros :
    '\n' ∉ (⟨"app:x"⟩ : Statsd).scope.toList ∧ (∀ e ∈ sample true, Clean e) ∧
    (⟨"app:x"⟩ : Statsd).readStream ((⟨"app:x"⟩ : Statsd).stream (sample true)) =
      ((sample true).map partsOf).map some ∧
    (∀ f ∈ sample false, Clean f) ∧
    (⟨"app:x"⟩ : Statsd).stream (sample true) = (⟨"app:x"⟩ : Statsd).stream (sample false) := by
  have hs : '\n' ∉ (⟨"app:x"⟩ : Statsd).scope.toList := by simp
  have he := clean_sample true
  have hf := clean_sample false
  obtain ⟨-, -, hr, hd⟩ := stream_determines ⟨"app:x"⟩ hs (sample true) he
  have ha : List.Forall₂ Event.Agrees (sample true) (sample false) :=
    .cons ⟨rfl, rfl, Or.inl rfl⟩
      (.cons ⟨rfl, rfl, Or.inr ⟨rfl, rfl⟩⟩ (.cons ⟨rfl, rfl, rfl⟩ .nil))
  exact ⟨hs, he, hr, hf, (hd _ hf).2 ha⟩

example : (sample true).map (⟨"app:x"⟩ : Statsd).body =
    ["app:x.load:1000000000000000.0|g", "app:x.a|b:0|c|#", "app:x.rt:1.5|ms|#k,:v:w,k"] := by
  decide +kernel

end Statsd
end Telemetry
