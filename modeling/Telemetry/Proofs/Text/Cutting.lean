import Mathlib.Algebra.GroupWithZero.Nat
import Mathlib.Data.List.Basic
import Mathlib.Data.List.TakeWhile
import Telemetry.Bytes
import Telemetry.Text.Blank
/-!
Cutting what was joined.

A part without the separator is found again in front of one, whether a text is cut at its first
separator or at all of them. A text has a line feed among its bytes only if it has one among its
characters, so the lines of a text can be cut as bytes too. Of what stands between blanks the
trimmed form is left.
-/

namespace Telemetry
namespace Text

/-- The text before the first `c` and the text after it. Without a `c` nothing comes after. -/
def around (c : Char) (cs : List Char) : List Char × List Char := (cutAt c cs).getD (cs, [])

theorem not_mem_of_all {p : Char → Bool} {cs : List Char} (ha : cs.all p = true) {c : Char}
    (hc : p c = false) : c ∉ cs := by
  intro hm
  rw [List.all_eq_true.1 ha c hm] at hc
  cases hc

theorem cutAt_append {c : Char} {a : List Char} (b : List Char) (h : c ∉ a) :
    cutAt c (a ++ c :: b) = some (a, b) := by
  induction a with
  | nil => simp [cutAt]
  | cons d a ih =>
    simp only [List.mem_cons, not_or] at h
    simp [cutAt, ih h.2, Ne.symm h.1]

theorem cutAt_eq_none {c : Char} {a : List Char} (h : c ∉ a) : cutAt c a = none := by
  induction a with
  | nil => rfl
  | cons d a ih =>
    simp only [List.mem_cons, not_or] at h
    simp [cutAt, ih h.2, Ne.symm h.1]

theorem cutAt_eq_none_iff {c : Char} {cs : List Char} : cutAt c cs = none ↔ c ∉ cs := by
  refine ⟨fun h hm => ?_, cutAt_eq_none⟩
  obtain ⟨a, b, rfl, ha⟩ := List.eq_append_cons_of_mem hm
  exact nomatch (cutAt_append b ha).symm.trans h

/-- A text is cut at the first `c` in it. -/
theorem cutAt_eq_some_iff {c : Char} {cs a b : List Char} :
    cutAt c cs = some (a, b) ↔ cs = a ++ c :: b ∧ c ∉ a := by
  constructor
  · intro h
    have hm : c ∈ cs := by
      rw [eq_of_cutAt h]
      exact List.mem_append_right a List.mem_cons_self
    obtain ⟨a', b', rfl, ha⟩ := List.eq_append_cons_of_mem hm
    cases (cutAt_append b' ha).symm.trans h
    exact ⟨rfl, ha⟩
  · rintro ⟨rfl, ha⟩
    exact cutAt_append b ha

theorem cutAtLast_eq_none_iff {c : Char} {cs : List Char} : cutAtLast c cs = none ↔ c ∉ cs := by
  unfold cutAtLast
  rw [Option.map_eq_none_iff, cutAt_eq_none_iff, List.mem_reverse]

/-- A text is cut at the last `c` in it. -/
theorem cutAtLast_eq_some_iff {c : Char} {cs a b : List Char} :
    cutAtLast c cs = some (a, b) ↔ cs = a ++ c :: b ∧ c ∉ b := by
  unfold cutAtLast
  rw [Option.map_eq_some_iff]
  constructor
  · rintro ⟨⟨y, x⟩, hxy, he⟩
    cases he
    obtain ⟨hcs, hy⟩ := cutAt_eq_some_iff.1 hxy
    refine ⟨?_, fun hm => hy (List.mem_reverse.1 hm)⟩
    rw [List.reverse_eq_iff] at hcs
    rw [hcs, List.reverse_append, List.reverse_cons, List.append_assoc]
    rfl
  · rintro ⟨rfl, hb⟩
    refine ⟨(b.reverse, a.reverse), ?_, Prod.ext a.reverse_reverse b.reverse_reverse⟩
    rw [cutAt_eq_some_iff, List.reverse_append, List.reverse_cons, List.append_assoc]
    exact ⟨rfl, fun hm => hb (List.mem_reverse.1 hm)⟩

theorem around_append {c : Char} {a : List Char} (b : List Char) (h : c ∉ a) :
    around c (a ++ c :: b) = (a, b) := by
  simp [around, cutAt_append b h]

theorem around_self {c : Char} {a : List Char} (h : c ∉ a) : around c a = (a, []) := by
  simp [around, cutAt_eq_none h]

theorem pieces_self {c : Char} {a : List Char} (h : c ∉ a) : pieces (· == c) a = [a] := by
  induction a with
  | nil => rfl
  | cons d a ih =>
    simp only [List.mem_cons, not_or] at h
    simp [pieces, ih h.2, Ne.symm h.1, consFirst]

theorem pieces_append {c : Char} {a : List Char} (b : List Char) (h : c ∉ a) :
    pieces (· == c) (a ++ c :: b) = a :: pieces (· == c) b := by
  induction a with
  | nil => simp [pieces]
  | cons d a ih =>
    simp only [List.mem_cons, not_or] at h
    simp [pieces, ih h.2, Ne.symm h.1, consFirst]

/-- Texts joined with a separator that none of them holds are the pieces between the separators. -/
theorem pieces_intercalate {c : Char} {ts : List String} (hn : ts ≠ [])
    (h : ∀ t ∈ ts, c ∉ t.toList) :
    pieces (· == c) (String.intercalate (String.singleton c) ts).toList = ts.map String.toList := by
  induction ts with
  | nil => exact absurd rfl hn
  | cons t ts ih =>
    have ht := h t List.mem_cons_self
    by_cases hts : ts = []
    · subst hts
      rw [String.intercalate_singleton]
      exact pieces_self ht
    · have hj := ih hts fun u hu => h u (List.mem_cons_of_mem t hu)
      rw [String.intercalate_cons_of_ne_nil hts, String.toList_append, String.toList_append,
        String.toList_singleton, List.append_assoc, List.singleton_append, pieces_append _ ht, hj,
        List.map_cons]

theorem mem_intercalate {c d : Char} {ts : List String}
    (h : d ∈ (String.intercalate (String.singleton c) ts).toList) :
    d = c ∨ ∃ t ∈ ts, d ∈ t.toList := by
  induction ts with
  | nil => simp at h
  | cons t ts ih =>
    by_cases hts : ts = []
    · subst hts
      rw [String.intercalate_singleton] at h
      exact Or.inr ⟨t, List.mem_cons_self, h⟩
    · rw [String.intercalate_cons_of_ne_nil hts] at h
      simp only [String.toList_append, String.toList_singleton, List.mem_append,
        List.mem_singleton] at h
      rcases h with (h | h) | h
      · exact Or.inr ⟨t, List.mem_cons_self, h⟩
      · exact Or.inl h
      · rcases ih h with h | ⟨u, hu, h⟩
        · exact Or.inl h
        · exact Or.inr ⟨u, List.mem_cons_of_mem t hu, h⟩

theorem count_intercalate {c d : Char} (h : d ≠ c) (ts : List String) :
    (String.intercalate (String.singleton c) ts).toList.count d =
      (ts.map fun t => t.toList.count d).sum := by
  induction ts with
  | nil => simp
  | cons t ts ih =>
    by_cases hts : ts = []
    · subst hts
      simp
    · rw [String.intercalate_cons_of_ne_nil hts, String.toList_append, String.toList_append,
        String.toList_singleton, List.count_append, List.count_append, ih,
        List.count_singleton, List.map_cons, List.sum_cons]
      simp [h.symm]

/-! ## Runs of characters, and blanks at the ends -/

theorem takeWhile_front {p : Char → Bool} {a b : List Char} (ha : ∀ c ∈ a, p c = true)
    (hb : ∀ c ∈ b.head?, p c = false) : (a ++ b).takeWhile p = a := by
  rw [List.takeWhile_append_of_pos ha]
  cases b with
  | nil => exact List.append_nil a
  | cons c b => rw [List.takeWhile_cons, hb c rfl, if_neg Bool.false_ne_true, List.append_nil]

theorem dropWhile_front {p : Char → Bool} {a b : List Char} (ha : ∀ c ∈ a, p c = true)
    (hb : ∀ c ∈ b.head?, p c = false) : (a ++ b).dropWhile p = b := by
  rw [List.dropWhile_append_of_pos ha]
  cases b with
  | nil => rfl
  | cons c b => rw [List.dropWhile_cons, hb c rfl, if_neg Bool.false_ne_true]

def Blank (cs : List Char) : Prop := ∀ c ∈ cs, isBlank c = true

/-- The text neither begins nor ends with a blank. -/
def Tight (cs : List Char) : Prop :=
  (∀ c ∈ cs.head?, isBlank c = false) ∧ ∀ c ∈ cs.getLast?, isBlank c = false

theorem not_blank_of_all {cs : List Char} (h : cs.all (!isBlank ·) = true) :
    ∀ c ∈ cs, isBlank c = false := by
  intro c hc
  have hb := List.all_eq_true.1 h c hc
  rwa [Bool.not_eq_true'] at hb

theorem tight_of_forall {cs : List Char} (h : ∀ c ∈ cs, isBlank c = false) : Tight cs :=
  ⟨fun c hc => h c (List.mem_of_mem_head? hc), fun c hc => h c (List.mem_of_mem_getLast? hc)⟩

/-- Trimming takes away the blanks around a text, and nothing else. -/
theorem trim_between {a m b : List Char} (ha : Blank a) (hm : Tight m) (hb : Blank b) :
    trim (a ++ m ++ b) = m := by
  by_cases hn : m = []
  · subst hn
    have hab : trimStart (a ++ [] ++ b) = [] := by
      rw [List.append_nil, ← List.append_nil (a ++ b)]
      refine dropWhile_front (fun c hc => ?_) nofun
      rcases List.mem_append.1 hc with hc | hc
      · exact ha c hc
      · exact hb c hc
    unfold trim
    rw [hab]
    rfl
  · have hstart : trimStart (a ++ m ++ b) = m ++ b := by
      obtain ⟨d, m, rfl⟩ := List.exists_cons_of_ne_nil hn
      rw [List.append_assoc]
      exact dropWhile_front ha hm.1
    have hend : (b.reverse ++ m.reverse).dropWhile isBlank = m.reverse := by
      refine dropWhile_front (fun c hc => hb c (List.mem_reverse.1 hc)) fun c hc => ?_
      rw [List.head?_reverse] at hc
      exact hm.2 c hc
    unfold trim trimEnd
    rw [hstart, List.reverse_append, hend, List.reverse_reverse]

theorem trim_self {cs : List Char} (h : Tight cs) : trim cs = cs := by
  have hb : Blank [] := fun c hc => absurd hc List.not_mem_nil
  have ht := trim_between hb h hb
  rwa [List.nil_append, List.append_nil] at ht

theorem blank_takeWhile (cs : List Char) : Blank (cs.takeWhile isBlank) :=
  fun c hc => List.all_eq_true.1 List.all_takeWhile c hc

theorem trim_append_blanks (cs : List Char) :
    trim cs ++ ((trimStart cs).reverse.takeWhile isBlank).reverse = trimStart cs := by
  unfold trim trimEnd
  rw [← List.reverse_append, List.takeWhile_append_dropWhile, List.reverse_reverse]

/-- A text is its trimmed form with blanks around it. -/
theorem exists_blanks (cs : List Char) : ∃ a b, Blank a ∧ Blank b ∧ cs = a ++ trim cs ++ b := by
  refine ⟨cs.takeWhile isBlank, ((trimStart cs).reverse.takeWhile isBlank).reverse,
    blank_takeWhile cs, fun c hc => blank_takeWhile _ c (List.mem_reverse.1 hc), ?_⟩
  rw [List.append_assoc, trim_append_blanks]
  exact List.takeWhile_append_dropWhile.symm

theorem mem_head?_append {a : List Char} {c : Char} (h : c ∈ a.head?) (b : List Char) :
    c ∈ (a ++ b).head? := by
  rw [List.head?_append, Option.mem_def.1 h]
  rfl

theorem mem_getLast?_append {b : List Char} {c : Char} (h : c ∈ b.getLast?) (a : List Char) :
    c ∈ (a ++ b).getLast? := by
  rw [List.getLast?_append, Option.mem_def.1 h]
  rfl

theorem tight_around {a b : List Char} (ha : Tight a) (hna : a ≠ []) (hb : Tight b) (hnb : b ≠ [])
    (m : List Char) : Tight (a ++ m ++ b) := by
  constructor
  · rw [List.append_assoc, List.head?_append_of_ne_nil a hna]
    exact ha.1
  · rw [List.getLast?_append_of_ne_nil (a ++ m) hnb]
    exact hb.2

theorem not_blank_head_trimStart (cs : List Char) :
    ∀ c ∈ (trimStart cs).head?, isBlank c = false := by
  intro c hc
  have hd := List.head?_dropWhile_not isBlank cs
  unfold trimStart at hc
  rwa [Option.mem_def.1 hc] at hd

theorem tight_trimStart {cs : List Char} (h : ∀ c ∈ cs.getLast?, isBlank c = false) :
    Tight (trimStart cs) := by
  refine ⟨not_blank_head_trimStart cs, fun c hc => h c ?_⟩
  have hl := mem_getLast?_append hc (cs.takeWhile isBlank)
  rwa [trimStart, List.takeWhile_append_dropWhile] at hl

theorem tight_trim (cs : List Char) : Tight (trim cs) := by
  constructor
  · intro c hc
    have hs := mem_head?_append hc ((trimStart cs).reverse.takeWhile isBlank).reverse
    rw [trim_append_blanks] at hs
    exact not_blank_head_trimStart cs c hs
  · intro c hc
    unfold trim trimEnd at hc
    rw [List.getLast?_reverse] at hc
    exact not_blank_head_trimStart _ c hc

theorem trimEnd_front (cs : List Char) : trimEnd cs <+: cs := by
  have hs := (List.dropWhile_suffix (l := cs.reverse) isBlank).reverse
  rwa [List.reverse_reverse] at hs

theorem trimEnd_blank {cs : List Char} (h : Blank cs) : trimEnd cs = [] := by
  have hd : cs.reverse.dropWhile isBlank = [] :=
    List.dropWhile_eq_nil_iff.2 fun c hc => h c (List.mem_reverse.1 hc)
  unfold trimEnd
  rw [hd]
  rfl

/-- Nothing is trimmed in front of what is no blank. -/
theorem trimEnd_append {a : List Char} (h : ∃ c ∈ a.getLast?, isBlank c = false) (b : List Char) :
    trimEnd (a ++ b) = a ++ trimEnd b := by
  have ha : a.reverse.dropWhile isBlank = a.reverse := by
    obtain ⟨c, hc, hb⟩ := h
    obtain ⟨a, rfl⟩ := List.getLast?_eq_some_iff.1 hc
    rw [List.reverse_concat]
    exact List.dropWhile_cons_of_neg (Bool.eq_false_iff.1 hb)
  unfold trimEnd
  rw [List.reverse_append, List.dropWhile_append]
  split
  · next he =>
    rw [ha, List.isEmpty_iff.1 he, List.reverse_nil, List.append_nil, List.reverse_reverse]
  · rw [List.reverse_append, List.reverse_reverse]

theorem trim_append {a : List Char} (ha : Blank a) {m : List Char}
    (hm : ∀ c ∈ m.head?, isBlank c = false) : trim (a ++ m) = trimEnd m := by
  unfold trim
  rw [trimStart, dropWhile_front ha hm]

/-- The texts that trimming leaves as they are. -/
theorem trim_eq_self_iff {cs : List Char} : trim cs = cs ↔ Tight cs :=
  ⟨fun h => h ▸ tight_trim cs, trim_self⟩

theorem trim_blank {cs : List Char} (h : Blank cs) : trim cs = [] := by
  have ht := trim_between h (m := []) ⟨nofun, nofun⟩ (b := []) nofun
  rwa [List.append_nil, List.append_nil] at ht

theorem isBlank_of_isDigit {c : Char} (h : c.isDigit = true) : isBlank c = false := by
  have hn : 48 ≤ c.toNat ∧ c.toNat ≤ 57 := by
    simp only [Char.isDigit, Bool.and_eq_true, decide_eq_true_eq] at h
    exact h
  rw [Bool.eq_false_iff]
  intro hb
  simp only [isBlank, blankRanges, List.any_cons, List.any_nil, Bool.or_eq_true, Bool.and_eq_true,
    decide_eq_true_eq, Bool.false_eq_true, or_false] at hb
  omega

end Text

namespace Bytes

/-- The lines that a line feed ends, without it, and what stands behind the last line feed. -/
def splitLines : Bytes → List Bytes × Bytes
  | [] => ([], [])
  | b :: bs =>
    let r := splitLines bs
    if b = newline then ([] :: r.1, r.2)
    else
      match r.1 with
      | [] => ([], b :: r.2)
      | l :: ls => ((b :: l) :: ls, r.2)

theorem splitLines_append {a : Bytes} (b : Bytes) (h : newline ∉ a) :
    splitLines (a ++ newline :: b) = (a :: (splitLines b).1, (splitLines b).2) := by
  induction a with
  | nil => simp [splitLines]
  | cons c a ih =>
    simp only [List.mem_cons, not_or] at h
    simp [splitLines, ih h.2, Ne.symm h.1]

theorem utf8EncodeChar_small {c : Char} (hc : c.toNat < 128) :
    String.utf8EncodeChar c = [UInt8.ofNat c.toNat] := by
  have hv : c.val.toNat ≤ 0x7f := Nat.le_of_lt_succ hc
  unfold String.utf8EncodeChar
  exact if_pos hv

/-- The bytes of a longer character all have their highest bit set. -/
theorem utf8EncodeChar_large {c : Char} (hc : 128 ≤ c.toNat) :
    ∀ b ∈ String.utf8EncodeChar c, 128 ≤ b.toNat := by
  have hv : ¬c.val.toNat ≤ 0x7f := Nat.not_le_of_lt hc
  unfold String.utf8EncodeChar
  dsimp only
  rw [if_neg hv]
  split
  · simp only [List.forall_mem_cons, UInt8.toNat_ofNat']
    refine ⟨?_, ?_, by simp⟩ <;> omega
  · split
    · simp only [List.forall_mem_cons, UInt8.toNat_ofNat']
      refine ⟨?_, ?_, ?_, by simp⟩ <;> omega
    · simp only [List.forall_mem_cons, UInt8.toNat_ofNat']
      refine ⟨?_, ?_, ?_, ?_, by simp⟩ <;> omega

/-- A line feed is one byte, and no byte of another character is one. -/
theorem count_newline_utf8EncodeChar (c : Char) :
    (String.utf8EncodeChar c).count newline = if c = '\n' then 1 else 0 := by
  by_cases hs : c.toNat < 128
  · have he : UInt8.ofNat c.toNat = newline ↔ c = '\n' := by
      rw [← UInt8.toNat_inj, UInt8.toNat_ofNat', Nat.mod_eq_of_lt (by omega), ← Char.toNat_inj]
      rfl
    rw [utf8EncodeChar_small hs, List.count_singleton]
    simp only [beq_iff_eq, he]
  · have hl := utf8EncodeChar_large (Nat.le_of_not_lt hs)
    have hc : c ≠ '\n' := by
      rintro rfl
      exact hs (by decide)
    rw [if_neg hc, List.count_eq_zero]
    exact fun hm => absurd (hl _ hm) (by decide)

/-- A text has as many line feeds among its bytes as among its characters. -/
theorem count_newline_ofText (s : String) : (ofText s).count newline = s.toList.count '\n' := by
  unfold ofText ofChars
  induction s.toList with
  | nil => rfl
  | cons c cs ih =>
    rw [List.flatMap_cons, List.count_append, ih, count_newline_utf8EncodeChar, List.count_cons,
      Nat.add_comm]
    simp only [beq_iff_eq]

theorem newline_not_mem_ofText {s : String} (h : '\n' ∉ s.toList) : newline ∉ ofText s := by
  rw [← List.count_eq_zero, count_newline_ofText]
  exact List.count_eq_zero.2 h

/-- As many lines are cut off as line feeds end them. -/
theorem length_splitLines (b : Bytes) : (splitLines b).1.length = b.count newline := by
  induction b with
  | nil => rfl
  | cons c b ih =>
    rw [List.count_cons, ← ih, splitLines]
    by_cases hc : c = newline
    · simp [hc]
    · simp only [hc, if_false, beq_iff_eq, Nat.add_zero]
      cases (splitLines b).1 with
      | nil => rfl
      | cons l ls => rfl

theorem toText?_ofText (s : String) : toText? (ofText s) = some s := by
  have hs : (⟨(ofText s).toArray⟩ : ByteArray) = s.toByteArray := by
    rw [← String.utf8Encode_toList]
    exact ByteArray.ext List.data_toByteArray.symm
  unfold toText? String.fromUTF8?
  rw [hs, dif_pos s.isValidUTF8]
  rfl

end Bytes
end Telemetry
