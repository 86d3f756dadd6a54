import Mathlib.Data.List.Forall2
import Mathlib.Data.List.TakeWhile
import Telemetry.Process.Table
import Telemetry.Proofs.Text.Cutting
/-!
Texts of tables and what is found in them.

The lines, columns and properties of a text are described here by how a text with them is written.
Each description leaves out what does not count, such as blank lines and the width of a gap. That
such a text is read as described is the part which later modules use; that every text can be
described in this way makes the description say of any text what is found in it.
-/

namespace Telemetry
namespace Table

open Text

/-! ## Lines -/

/-- Lines as they are written, and the contents of those that are not blank. -/
inductive Holds : List (List Char) → List (List Char) → Prop
  | nil : Holds [] []
  | blank {w : List Char} {ws ls : List (List Char)} (blank : Blank w) (rest : Holds ws ls) :
      Holds (w :: ws) ls
  | line {a l b : List Char} {ws ls : List (List Char)} (before : Blank a) (tight : Tight l)
      (filled : l ≠ []) (behind : Blank b) (rest : Holds ws ls) :
      Holds ((a ++ l ++ b) :: ws) (l :: ls)

/-- The text consists of these lines, with blanks around each of them and blank lines anywhere.
Behind the last line there may be no line feed. -/
def Consists (cs : List Char) (ls : List (List Char)) : Prop :=
  ∃ (ws : List (List Char)) (last : List Char), cs = ws.flatMap (· ++ ['\n']) ++ last ∧
    (∀ w ∈ ws, '\n' ∉ w) ∧ '\n' ∉ last ∧ Holds (ws ++ [last]) ls

theorem pieces_written {ws : List (List Char)} {last : List Char} (h : ∀ w ∈ ws, '\n' ∉ w)
    (hl : '\n' ∉ last) :
    pieces (· == '\n') (ws.flatMap (· ++ ['\n']) ++ last) = ws ++ [last] := by
  induction ws with
  | nil => exact pieces_self hl
  | cons w ws ih =>
      obtain ⟨hw, hws⟩ := List.forall_mem_cons.1 h
      rw [List.flatMap_cons, List.append_assoc, List.append_assoc, List.singleton_append,
        pieces_append _ hw, ih hws, List.cons_append]

theorem exists_written (cs : List Char) : ∃ (ws : List (List Char)) (last : List Char),
    cs = ws.flatMap (· ++ ['\n']) ++ last ∧ (∀ w ∈ ws, '\n' ∉ w) ∧ '\n' ∉ last := by
  induction cs with
  | nil => exact ⟨[], [], rfl, nofun, List.not_mem_nil⟩
  | cons c cs ih =>
      obtain ⟨ws, last, rfl, hws, hl⟩ := ih
      have longer {w : List Char} (hc : '\n' ≠ c) (hw : '\n' ∉ w) : '\n' ∉ c :: w :=
        List.not_mem_cons_of_ne_of_not_mem hc hw
      by_cases hc : '\n' = c
      · subst hc
        exact ⟨[] :: ws, last, rfl, List.forall_mem_cons.2 ⟨List.not_mem_nil, hws⟩, hl⟩
      · cases ws with
        | nil => exact ⟨[], c :: last, rfl, nofun, longer hc hl⟩
        | cons w ws =>
            obtain ⟨hw, hws⟩ := List.forall_mem_cons.1 hws
            exact ⟨(c :: w) :: ws, last, rfl, List.forall_mem_cons.2 ⟨longer hc hw, hws⟩, hl⟩

theorem Holds.lines {ws ls : List (List Char)} (h : Holds ws ls) :
    (ws.map trim).filter (fun line => !line.isEmpty) = ls := by
  induction h with
  | nil => rfl
  | blank blank rest ih =>
      rw [List.map_cons, trim_blank blank]
      exact ih
  | line before tight filled behind rest ih =>
      rw [List.map_cons, trim_between before tight behind, List.filter_cons,
        List.isEmpty_eq_false_iff.2 filled, ih]
      rfl

theorem Holds.trimmed {w : List Char} {ws ls : List (List Char)} (hn : trim w ≠ [])
    (h : Holds ws ls) : Holds (w :: ws) (trim w :: ls) := by
  obtain ⟨a, b, ha, hb, hw⟩ := exists_blanks w
  rw [hw, trim_between ha (tight_trim w) hb]
  exact .line ha (tight_trim w) hn hb h

theorem exists_holds (ws : List (List Char)) : ∃ ls, Holds ws ls := by
  induction ws with
  | nil => exact ⟨[], .nil⟩
  | cons w ws ih =>
      obtain ⟨ls, h⟩ := ih
      by_cases hn : trim w = []
      · obtain ⟨a, b, ha, hb, hw⟩ := exists_blanks w
        refine ⟨ls, .blank (fun c hc => ?_) h⟩
        rw [hw, hn, List.append_nil] at hc
        exact (List.mem_append.1 hc).elim (ha c) (hb c)
      · exact ⟨_, h.trimmed hn⟩

/-- A text of lines that are not blank, with a line feed behind each, consists of them. -/
theorem consists_flatMap {ws : List (List Char)} (hn : ∀ w ∈ ws, '\n' ∉ w)
    (hf : ∀ w ∈ ws, trim w ≠ []) :
    Consists (ws.flatMap (· ++ ['\n'])) (ws.map trim) := by
  refine ⟨ws, [], (List.append_nil _).symm, hn, List.not_mem_nil, ?_⟩
  induction ws with
  | nil => exact .blank nofun .nil
  | cons w ws ih =>
      obtain ⟨-, hn⟩ := List.forall_mem_cons.1 hn
      obtain ⟨hw, hf⟩ := List.forall_mem_cons.1 hf
      exact (ih hn hf).trimmed hw

/-- The lines of a text are found exactly in the texts that consist of them. -/
theorem lines_eq_iff {cs : List Char} {ls : List (List Char)} : lines cs = ls ↔ Consists cs ls := by
  constructor
  · rintro rfl
    obtain ⟨ws, last, rfl, hws, hl⟩ := exists_written cs
    obtain ⟨ls, h⟩ := exists_holds (ws ++ [last])
    refine ⟨ws, last, rfl, hws, hl, ?_⟩
    unfold lines
    rw [pieces_written hws hl, h.lines]
    exact h
  · rintro ⟨ws, last, rfl, hws, hl, h⟩
    unfold lines
    rw [pieces_written hws hl, h.lines]

theorem Holds.tight {ws ls : List (List Char)} (h : Holds ws ls) : ∀ l ∈ ls, Tight l ∧ l ≠ [] := by
  induction h with
  | nil => exact nofun
  | blank blank rest ih => exact ih
  | line before tight filled behind rest ih => exact List.forall_mem_cons.2 ⟨⟨tight, filled⟩, ih⟩

theorem Consists.tight {cs : List Char} {ls : List (List Char)} (h : Consists cs ls) :
    ∀ l ∈ ls, Tight l ∧ l ≠ [] := by
  obtain ⟨ws, last, -, -, -, hh⟩ := h
  exact hh.tight

/-! ## Columns -/

/-- A column neither begins with a blank nor ends with a space, and holds no two adjacent spaces. -/
structure Column (cs : List Char) : Prop where
  opens : ∃ c ∈ cs.head?, isBlank c = false
  closes : ∀ c ∈ cs.getLast?, c ≠ ' '
  whole : ¬ [' ', ' '] <:+: cs

/-- A line of columns with gaps between them. A gap is two spaces, with further blanks behind
them. -/
inductive Spaced : List (List Char) → List Char → Prop
  | last (c : List Char) : Spaced [c] c
  | cons {c gap line : List Char} {cols : List (List Char)} (blank : Blank gap)
      (rest : Spaced cols line) : Spaced (c :: cols) (c ++ ' ' :: ' ' :: (gap ++ line))

/-- The line has these columns. -/
def Columned (line : List Char) (cols : List (List Char)) : Prop :=
  Spaced cols line ∧ ∀ c ∈ cols, Column c

theorem column_of_tight {cs : List Char} (tight : Tight cs) (hn : cs ≠ [])
    (whole : ¬ [' ', ' '] <:+: cs) : Column cs := by
  have hd := List.head?_eq_some_head hn
  refine ⟨⟨cs.head hn, hd, tight.1 _ hd⟩, ?_, whole⟩
  rintro c hc rfl
  exact absurd (tight.2 ' ' hc) (by decide)

theorem column_of_not_blank {cs : List Char} (hn : cs ≠ []) (h : ∀ c ∈ cs, isBlank c = false) :
    Column cs := by
  refine column_of_tight (tight_of_forall h) hn fun hi => ?_
  exact absurd (h ' ' (hi.subset List.mem_cons_self)) (by decide)

/-- A single space behind a column does not make a gap. -/
theorem Column.whole_space {c : List Char} (h : Column c) : ¬ [' ', ' '] <:+: c ++ [' '] := by
  rw [List.infix_concat_iff]
  rintro (⟨a, ha⟩ | hi)
  · have hc : c = a ++ [' '] := by
      refine (List.append_left_inj [' ']).1 ?_
      rw [← ha, List.append_assoc]
      rfl
    exact h.closes ' ' (by rw [hc, List.getLast?_concat]; rfl) rfl
  · exact h.whole hi

theorem cutAtGap_eq_none {cs : List Char} (h : ¬ [' ', ' '] <:+: cs) : cutAtGap cs = none := by
  rw [Option.eq_none_iff_forall_ne_some]
  rintro ⟨a, b⟩ hab
  refine h ⟨a, b, ?_⟩
  rw [eq_of_cutAtGap hab, List.append_assoc]
  rfl

theorem cutAtGap_append {c : List Char} (h : ¬ [' ', ' '] <:+: c ++ [' ']) (b : List Char) :
    cutAtGap (c ++ ' ' :: ' ' :: b) = some (c, b) := by
  induction c with
  | nil => rfl
  | cons d c ih =>
      rw [List.cons_append, List.infix_cons_iff, not_or] at h
      have hc := ih h.2
      cases c with
      | nil =>
          have hd : ¬ (d = ' ' ∧ ' ' = ' ') := by
            rintro ⟨rfl, -⟩
            exact h.1 (List.prefix_refl _)
          show (if d = ' ' ∧ ' ' = ' ' then _ else _) = _
          rw [if_neg hd]
          exact congrArg (Option.map _) hc
      | cons e c =>
          have hd : ¬ (d = ' ' ∧ e = ' ') := by
            rintro ⟨rfl, rfl⟩
            exact h.1 ⟨c ++ [' '], rfl⟩
          show (if d = ' ' ∧ e = ' ' then _ else _) = _
          rw [if_neg hd]
          exact congrArg (Option.map _) hc

theorem whole_of_cutAtGap_eq_none {cs : List Char} (h : cutAtGap cs = none) :
    ¬ [' ', ' '] <:+: cs := by
  fun_induction cutAtGap cs with
  | case1 => exact fun hi => absurd (List.eq_nil_of_infix_nil hi) (List.cons_ne_nil _ _)
  | case2 c => exact fun hi => absurd hi.length_le (by simp)
  | case3 c d cs hc => cases h
  | case4 c d cs hc ih =>
      rw [List.infix_cons_iff]
      rintro (hp | hi)
      · obtain ⟨hfirst, hp⟩ := List.cons_prefix_cons.1 hp
        obtain ⟨hsecond, -⟩ := List.cons_prefix_cons.1 hp
        exact hc ⟨hfirst.symm, hsecond.symm⟩
      · exact ih (Option.map_eq_none_iff.1 h) hi

theorem cutAtGap_eq_none_iff {cs : List Char} : cutAtGap cs = none ↔ ¬ [' ', ' '] <:+: cs :=
  ⟨whole_of_cutAtGap_eq_none, cutAtGap_eq_none⟩

/-- The text in front of the first gap is free of gaps, with the gap's first space as without it. -/
theorem whole_of_cutAtGap_eq_some {cs a b : List Char} (h : cutAtGap cs = some (a, b)) :
    ¬ [' ', ' '] <:+: a ++ [' '] := by
  fun_induction cutAtGap cs generalizing a with
  | case1 => cases h
  | case2 => cases h
  | case3 c d cs hc =>
      cases h
      exact fun hi => absurd hi.length_le (by simp)
  | case4 c d cs hc ih =>
      obtain ⟨⟨x, y⟩, hxy, he⟩ := Option.map_eq_some_iff.1 h
      cases he
      rw [List.cons_append, List.infix_cons_iff]
      rintro (hp | hi)
      · obtain ⟨hfirst, hp⟩ := List.cons_prefix_cons.1 hp
        have hd : d :: cs = x ++ [' '] ++ ' ' :: b := by
          rw [eq_of_cutAtGap hxy, List.append_assoc]
          rfl
        have hp : [' '] <+: d :: cs := hd ▸ hp.trans (List.prefix_append _ _)
        obtain ⟨hsecond, -⟩ := List.cons_prefix_cons.1 hp
        exact hc ⟨hfirst.symm, hsecond.symm⟩
      · exact ih hxy hi

theorem columns_blank_append {gap : List Char} (h : Blank gap) (line : List Char) :
    columns (gap ++ line) = columns line := by
  have ht : trimStart (gap ++ line) = trimStart line := List.dropWhile_append_of_pos h
  rw [columns, columns, ht]

theorem trimStart_column {c : List Char} (h : Column c) (behind : List Char) :
    trimStart (c ++ behind) = c ++ behind := by
  obtain ⟨d, hd, hb⟩ := h.opens
  obtain ⟨rest, rfl⟩ := List.head?_eq_some_iff.1 hd
  exact List.dropWhile_cons_of_neg (Bool.eq_false_iff.1 hb)

theorem Column.ne_nil {c : List Char} (h : Column c) : c ≠ [] := by
  rintro rfl
  obtain ⟨d, hd, -⟩ := h.opens
  exact nomatch hd

theorem columns_column {c : List Char} (h : Column c) : columns c = [c] := by
  have ht := trimStart_column h []
  rw [List.append_nil] at ht
  rw [columns, ht, List.isEmpty_eq_false_iff.2 h.ne_nil, if_neg Bool.false_ne_true]
  split
  · rfl
  · next hg => cases (cutAtGap_eq_none h.whole).symm.trans hg

theorem columns_column_append {c : List Char} (h : Column c) (behind : List Char) :
    columns (c ++ ' ' :: ' ' :: behind) = c :: columns behind := by
  have ht := trimStart_column h (' ' :: ' ' :: behind)
  have hn : c ++ ' ' :: ' ' :: behind ≠ [] := List.append_ne_nil_of_left_ne_nil h.ne_nil _
  have hs := cutAtGap_append h.whole_space behind
  rw [columns, ht, List.isEmpty_eq_false_iff.2 hn, if_neg Bool.false_ne_true]
  split
  · next hg => cases hs.symm.trans hg
  · next hg =>
    cases hs.symm.trans hg
    rfl

theorem columns_of_columned {line : List Char} {cols : List (List Char)} (h : Columned line cols) :
    columns line = cols := by
  obtain ⟨hs, hc⟩ := h
  induction hs with
  | last c => exact columns_column (List.forall_mem_singleton.1 hc)
  | cons blank rest ih =>
      obtain ⟨hfirst, hrest⟩ := List.forall_mem_cons.1 hc
      rw [columns_column_append hfirst, columns_blank_append blank, ih hrest]

/-- The text in front of the first gap is a column, unless it begins with a blank. -/
theorem column_of_cutAtGap {cs a b : List Char} (opens : ∀ c ∈ cs.head?, isBlank c = false)
    (h : cutAtGap cs = some (a, b)) : Column a := by
  have hcut := eq_of_cutAtGap h
  have whole := whole_of_cutAtGap_eq_some h
  refine ⟨?_, ?_, fun hi => whole (hi.trans (List.prefix_append a [' ']).isInfix)⟩
  · cases a with
    | nil => exact absurd (opens ' ' (by rw [hcut]; rfl)) (by decide)
    | cons c a => exact ⟨c, rfl, opens c (by rw [hcut]; rfl)⟩
  · rintro c hc rfl
    obtain ⟨a', rfl⟩ := List.getLast?_eq_some_iff.1 hc
    exact whole ⟨a', [], by simp only [List.append_assoc, List.append_nil]; rfl⟩

/-- Something other than blanks follows a gap, because the line does not end with a blank. -/
theorem trimStart_ne_nil_of_gap {a b : List Char} (tight : Tight (a ++ ' ' :: ' ' :: b)) :
    trimStart b ≠ [] := by
  intro hb
  have blank : Blank (' ' :: ' ' :: b) := List.forall_mem_cons.2
    ⟨by decide, List.forall_mem_cons.2 ⟨by decide, List.dropWhile_eq_nil_iff.1 hb⟩⟩
  have filled := List.cons_ne_nil ' ' (' ' :: b)
  have hl := mem_getLast?_append (List.getLast?_eq_getLast_of_ne_nil filled) a
  exact Bool.false_ne_true ((tight.2 _ hl).symm.trans (blank _ (List.getLast_mem filled)))

/-- The columns that are found in a line which does not end with a blank are columns of it. -/
theorem columned_columns {line : List Char} (h : ∀ c ∈ line.getLast?, isBlank c = false)
    (hn : trimStart line ≠ []) : Columned (trimStart line) (columns line) := by
  fun_induction columns line with
  | case1 line he => exact absurd (List.isEmpty_iff.1 he) hn
  | case2 line he hg =>
      have column := column_of_tight (tight_trimStart h) hn (whole_of_cutAtGap_eq_none hg)
      exact ⟨.last _, List.forall_mem_singleton.2 column⟩
  | case3 line he a b hg ih =>
      have tight := tight_trimStart h
      have column := column_of_cutAtGap tight.1 hg
      rw [eq_of_cutAtGap hg] at tight ⊢
      have closes : ∀ c ∈ b.getLast?, isBlank c = false := fun c hc =>
        tight.2 c (mem_getLast?_append (mem_getLast?_append hc [' ', ' ']) a)
      obtain ⟨spaced, others⟩ := ih closes (trimStart_ne_nil_of_gap tight)
      have hcols := Spaced.cons (c := a) (blank_takeWhile b) spaced
      rw [trimStart, List.takeWhile_append_dropWhile] at hcols
      exact ⟨hcols, List.forall_mem_cons.2 ⟨column, others⟩⟩

/-- The columns of a trimmed line are found exactly where the line is made of them. -/
theorem columns_eq_iff {line : List Char} {cols : List (List Char)} (ht : Tight line)
    (hn : line ≠ []) : columns line = cols ↔ Columned line cols := by
  constructor
  · rintro rfl
    obtain ⟨c, rest, rfl⟩ := List.exists_cons_of_ne_nil hn
    have hs : trimStart (c :: rest) = c :: rest :=
      List.dropWhile_cons_of_neg (Bool.eq_false_iff.1 (ht.1 c rfl))
    have hc := columned_columns ht.2 (hs.symm ▸ hn)
    rwa [hs] at hc
  · exact columns_of_columned

theorem Columned.ne_nil {line : List Char} {cols : List (List Char)} (h : Columned line cols) :
    cols ≠ [] := by
  obtain ⟨hs, -⟩ := h
  cases hs <;> exact List.cons_ne_nil _ _

/-! ## Properties -/

/-- The key and the value of a line, trimmed, around its first colon. Without a colon the key is
empty. -/
inductive Entry : List Char → List Char × List Char → Prop
  | colon {key value : List Char} (first : ':' ∉ key) :
      Entry (key ++ ':' :: value) (trim key, trim value)
  | none {line : List Char} (none : ':' ∉ line) : Entry line ([], trim line)

theorem property_eq_iff {line : List Char} {e : List Char × List Char} :
    property line = e ↔ Entry line e := by
  constructor
  · rintro rfl
    unfold property
    cases hc : cutAt ':' line with
    | none => exact .none (cutAt_eq_none_iff.1 hc)
    | some p =>
        obtain ⟨rfl, first⟩ := cutAt_eq_some_iff.1 hc
        exact .colon first
  · rintro (first | none)
    · unfold property
      rw [cutAt_append _ first]
    · unfold property
      rw [cutAt_eq_none none]

/-- The properties that a text has, line by line. -/
def Entries (cs : List Char) (es : List (List Char × List Char)) : Prop :=
  ∃ ls, Consists cs ls ∧ List.Forall₂ Entry ls es

theorem properties_eq_iff {cs : List Char} {es : List (List Char × List Char)} :
    properties cs = es ↔ Entries cs es := by
  have hmap (ls : List (List Char)) : ls.map property = es ↔ List.Forall₂ Entry ls es := by
    rw [← List.forall₂_eq_eq_eq, List.forall₂_map_left_iff]
    simp only [property_eq_iff]
  constructor
  · intro h
    exact ⟨lines cs, lines_eq_iff.1 rfl, (hmap _).1 h⟩
  · rintro ⟨ls, hls, hes⟩
    cases lines_eq_iff.2 hls
    exact (hmap _).2 hes

end Table
end Telemetry
