import Mathlib.Algebra.GroupWithZero.Nat
import Telemetry.Proofs.Statsd.Decoding
/-!
How many lines an event makes.

An event that is refused appends nothing. The bytes of one that is taken end in a line feed, and the
text of a number holds none. But the scope, the name and the tags are copied as they are, so each
line feed in one of them ends a line of its own, and what stands behind it is read as the next line.
The main statement is `lines_of_event`: the number of lines, and that it is one exactly if nothing
that is copied holds a line feed.
-/

namespace Telemetry

/-- One line feed, as the last byte. -/
def Bytes.IsLine (b : Bytes) : Prop := b.count newline = 1 ∧ b.getLast? = some newline

namespace Statsd

/-- The line feeds of a tag's name and value. -/
def tagFeeds (tag : Tag) : Nat := tag.name.toList.count '\n' + tag.value.toList.count '\n'

/-- The line feeds in what a line copies. -/
def copiedFeeds (s : Statsd) (e : Event) : Nat :=
  s.scope.toList.count '\n' + e.metric.name.toList.count '\n' +
    (e.metric.tags.list.map tagFeeds).sum

/-- Nothing that a line copies holds a line feed. -/
structure Unbroken (s : Statsd) (e : Event) : Prop where
  scope : '\n' ∉ s.scope.toList
  name : '\n' ∉ e.metric.name.toList
  tagNames : ∀ tag ∈ e.metric.tags.list, '\n' ∉ tag.name.toList
  tagValues : ∀ tag ∈ e.metric.tags.list, '\n' ∉ tag.value.toList

theorem copiedFeeds_eq_zero {s : Statsd} {e : Event} : s.copiedFeeds e = 0 ↔ Unbroken s e := by
  unfold copiedFeeds
  constructor
  · intro h
    have hs : s.scope.toList.count '\n' = 0 := by omega
    have hn : e.metric.name.toList.count '\n' = 0 := by omega
    have ht : (e.metric.tags.list.map tagFeeds).sum = 0 := by omega
    rw [List.sum_eq_zero_iff_forall_eq_nat, List.forall_mem_map] at ht
    refine ⟨List.count_eq_zero.1 hs, List.count_eq_zero.1 hn, fun tag hm => ?_, fun tag hm => ?_⟩
    · exact List.count_eq_zero.1 (Nat.add_eq_zero_iff.1 (ht tag hm)).1
    · exact List.count_eq_zero.1 (Nat.add_eq_zero_iff.1 (ht tag hm)).2
  · intro h
    have ht : (e.metric.tags.list.map tagFeeds).sum = 0 := by
      rw [List.sum_eq_zero_iff_forall_eq_nat, List.forall_mem_map]
      intro tag hm
      rw [tagFeeds, List.count_eq_zero.2 (h.tagNames tag hm),
        List.count_eq_zero.2 (h.tagValues tag hm)]
    rw [List.count_eq_zero.2 h.scope, List.count_eq_zero.2 h.name, ht]

/-! ## Counting line feeds -/

theorem count_lead (s : Statsd) : s.lead.toList.count '\n' = s.scope.toList.count '\n' := by
  unfold lead
  split
  · next h => simp [String.isEmpty_iff.1 h]
  · simp

theorem count_tagText (tag : Tag) : (tagText tag).toList.count '\n' = tagFeeds tag := by
  unfold tagText tagFeeds
  split
  · next h => simp [String.isEmpty_iff.1 h]
  · simp

theorem count_tagsText (tags : Tags) :
    (tagsText tags).toList.count '\n' = (tags.list.map tagFeeds).sum := by
  by_cases ht : tags.list = []
  · simp [tagsText, Tags.isEmpty, ht]
  · have hj := Text.count_intercalate (show '\n' ≠ ',' by decide) (tags.list.map tagText)
    rw [show String.singleton ',' = "," from rfl] at hj
    rw [toList_tagsText ht, List.count_cons_of_ne (by decide), List.count_cons_of_ne (by decide), hj,
      List.map_map]
    exact congrArg List.sum (List.map_congr_left fun tag _ => count_tagText tag)

theorem count_body (s : Statsd) (e : Event) : (s.body e).toList.count '\n' = s.copiedFeeds e := by
  have hv : (numberText (value e.reading)).toList.count '\n' = 0 :=
    List.count_eq_zero.2 (not_mem_numberText (by decide) _)
  have hk : (kindText e.reading).toList.count '\n' = 0 :=
    List.count_eq_zero.2 (not_mem_kindText (by decide) _)
  unfold body copiedFeeds
  simp only [String.toList_append, List.count_append, count_lead, count_tagsText, hv, hk]
  have hc : ":".toList.count '\n' = 0 := by decide
  have hb : "|".toList.count '\n' = 0 := by decide
  omega

/-- The line of an event is its body and one more line feed. -/
theorem ofText_line (s : Statsd) (e : Event) :
    Bytes.ofText (s.line e) = Bytes.ofText (s.body e) ++ [Bytes.newline] :=
  Bytes.ofText_append (s.body e) "\n"

theorem count_line (s : Statsd) (e : Event) :
    (Bytes.ofText (s.line e)).count Bytes.newline = s.copiedFeeds e + 1 := by
  rw [ofText_line, List.count_append, Bytes.count_newline_ofText, count_body,
    List.count_singleton_self]

theorem getLast?_line (s : Statsd) (e : Event) :
    (Bytes.ofText (s.line e)).getLast? = some Bytes.newline := by
  rw [ofText_line, List.getLast?_concat]

/-! ## What the encoder takes -/

/-- An event is taken, with its line, or it is refused and appends nothing. -/
theorem codec_cases (s : Statsd) (e : Event) :
    ((value e.reading).isFinite = true ∧ e.metric.name ≠ "" ∧
      s.codec e = .done (Bytes.ofText (s.line e))) ∨
    (((value e.reading).isFinite = false ∨ e.metric.name = "") ∧
      ∃ cause, s.codec e = .failed [] cause) := by
  unfold codec encode
  cases hf : (value e.reading).isFinite with
  | false => exact .inr ⟨.inl rfl, _, rfl⟩
  | true =>
    by_cases hn : e.metric.name = ""
    · refine .inr ⟨.inr hn, Refusal.noName.toIoError, ?_⟩
      simp [hn]
    · refine .inl ⟨rfl, hn, ?_⟩
      simp [hn]

/-- A finite value under a name that is not empty is encoded, and nothing else is; what is refused
appends nothing. The bytes of an encoded event end in a line feed and hold one more than all that is
copied into them, so they are one line exactly if no line feed is copied, and otherwise as many more
as there are. -/
theorem lines_of_event (s : Statsd) (e : Event) :
    ((∃ bytes, s.codec e = .done bytes) ↔
      (value e.reading).isFinite = true ∧ e.metric.name ≠ "") ∧
    ((∃ bytes, s.codec e = .done bytes) ∨ ∃ cause, s.codec e = .failed [] cause) ∧
    ∀ bytes, s.codec e = .done bytes →
      bytes.getLast? = some Bytes.newline ∧
      bytes.count Bytes.newline = s.copiedFeeds e + 1 ∧
      (Bytes.splitLines bytes).1.length = s.copiedFeeds e + 1 ∧
      (bytes.IsLine ↔ Unbroken s e) := by
  rcases codec_cases s e with ⟨hf, hn, hc⟩ | ⟨hr, cause, hc⟩
  · refine ⟨⟨fun _ => ⟨hf, hn⟩, fun _ => ⟨_, hc⟩⟩, .inl ⟨_, hc⟩, fun bytes hb => ?_⟩
    rw [hc] at hb
    cases hb
    refine ⟨getLast?_line s e, count_line s e, ?_, ?_⟩
    · rw [Bytes.length_splitLines, count_line]
    · rw [Bytes.IsLine, count_line, ← copiedFeeds_eq_zero]
      exact ⟨fun h => Nat.succ.inj h.1, fun h => ⟨congrArg Nat.succ h, getLast?_line s e⟩⟩
  · rw [hc]
    refine ⟨⟨nofun, fun h => ?_⟩, .inr ⟨cause, rfl⟩, nofun⟩
    rcases hr with hr | hr
    · exact absurd (h.1.symm.trans hr) (by decide)
    · exact absurd hr h.2

/-- A gauge with a line feed in the value of a tag and another one in the scope. -/
def torn : Event := ⟨⟨"load", "", ⟨[⟨"host", "a\nb"⟩]⟩⟩, .set (.ofNat 20)⟩

theorem lines_of_event_torn :
    ∃ bytes, (⟨"x\ny"⟩ : Statsd).codec torn = .done bytes ∧
      bytes.count Bytes.newline = 3 ∧ (Bytes.splitLines bytes).1.length = 3 ∧ ¬ bytes.IsLine := by
  obtain ⟨htaken, -, hlines⟩ := lines_of_event ⟨"x\ny"⟩ torn
  obtain ⟨bytes, hb⟩ := htaken.2 ⟨by decide +kernel, by decide⟩
  obtain ⟨-, hcount, hlength, hline⟩ := hlines bytes hb
  have hfeeds : (⟨"x\ny"⟩ : Statsd).copiedFeeds torn = 2 := by decide +kernel
  rw [hfeeds] at hcount hlength
  exact ⟨bytes, hb, hcount, hlength, fun h => absurd (hline.1 h).scope (by decide)⟩

/-- A name that ends a line of another metric and begins its own behind it. -/
def forged : Event := ⟨⟨"up:1|c\nload", "", .empty⟩, .set (.ofNat 20)⟩

/-- One event makes two lines, and each of them reads as an event. -/
theorem line_forged :
    ∃ bytes, (⟨""⟩ : Statsd).codec forged = .done bytes ∧ ¬ bytes.IsLine ∧
      (⟨""⟩ : Statsd).readStream bytes =
        [some ⟨"up", "1", "c", []⟩, some ⟨"load", "20", "g", []⟩] := by
  refine ⟨Bytes.ofText "up:1|c\nload:20|g\n", by decide +kernel, ?_, by decide +kernel⟩
  intro h
  exact absurd h.1 (by decide +kernel)

end Statsd
end Telemetry
