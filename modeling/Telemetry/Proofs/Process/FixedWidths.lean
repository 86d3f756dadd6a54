import Telemetry.Proofs.Process.Limits
/-!
Tables of limits in columns of fixed widths.

Spaces fill up a text that is shorter than its column, and one space more stands between two
columns. So there is no gap behind a text that fills its column, and what follows it is read as part
of it. A number of 20 digits fills a column of values.
-/

namespace Telemetry
namespace Limits

open Table Text

/-- The text at the left end of a column, which it may be too long for. -/
def fill (width : Nat) (cs : List Char) : List Char := cs.rightpad width ' '

def fixedLine (name soft hard units : List Char) : List Char :=
  fill 25 name ++ ' ' :: (fill 20 soft ++ ' ' :: (fill 20 hard ++ ' ' :: fill 10 units))

def headerLine : List Char :=
  fixedLine "Limit".toList "Soft Limit".toList "Hard Limit".toList "Units".toList

def valueText : Option Nat → List Char
  | none => unlimited.toList
  | some n => Nat.toDigits 10 n

def fixedRow (l : Limit) : List Char :=
  fixedLine l.name.toList (valueText l.soft) (valueText l.hard) l.units.toList

/-- The table in the layout of the kernel. -/
def print (limits : List Limit) : String :=
  String.ofList ((headerLine :: limits.map fixedRow).flatMap (· ++ ['\n']))

/-- A limit as the kernel can have it. The largest number of 64 bits stands for no limit there. -/
structure Printable (l : Limit) : Prop where
  proper : Proper l
  short : l.name.length ≤ 24
  soft : ∀ n ∈ l.soft, n < 2 ^ 64 - 1
  hard : ∀ n ∈ l.hard, n < 2 ^ 64 - 1

/-- The value leaves room in its column, which takes 20 digits to fill. -/
def Fits (v : Option Nat) : Prop := ∀ n ∈ v, n < 10 ^ 19

/-- There is room behind each value that something follows. -/
def Roomy (l : Limit) : Prop := Fits l.soft ∧ (l.units = "" ∨ Fits l.hard)

/-- The limit that a fault is about. -/
def Fault.limit : Fault → String
  | .noSoft name => name
  | .noHard name => name
  | .badSoft name _ => name
  | .badHard name _ => name

/-! ## Columns of fixed widths -/

theorem fill_append (width : Nat) (cs : List Char) :
    fill width cs = cs ++ List.replicate (width - cs.length) ' ' := rfl

theorem fill_of_le {width : Nat} {cs : List Char} (h : width ≤ cs.length) : fill width cs = cs := by
  rw [fill_append, Nat.sub_eq_zero_of_le h, List.replicate_zero, List.append_nil]

theorem blank_spaces (n : Nat) : Blank (List.replicate n ' ') := by
  intro c hc
  rw [List.eq_of_mem_replicate hc]
  decide

/-- A text that is shorter than its column has a gap behind it. -/
theorem exists_gap {width : Nat} {cs : List Char} (h : cs.length < width) (line : List Char) :
    ∃ gap, Blank gap ∧ fill width cs ++ ' ' :: line = cs ++ ' ' :: ' ' :: (gap ++ line) := by
  -- The spaces that fill the column and the one behind it, less the two that open the gap.
  refine ⟨List.replicate (width - cs.length - 1) ' ', blank_spaces _, ?_⟩
  obtain ⟨k, hk⟩ := Nat.exists_eq_add_of_lt h
  have hw : width - cs.length = k + 1 := by omega
  rw [fill_append, hw, Nat.add_sub_cancel, List.replicate_succ, List.append_assoc, List.cons_append,
    ← List.singleton_append (l := line), ← List.append_assoc (List.replicate k ' '),
    ← List.replicate_succ', List.replicate_succ, List.cons_append]

theorem spaced_fill {width : Nat} {cs line : List Char} {cols : List (List Char)}
    (h : cs.length < width) (hs : Spaced cols line) :
    Spaced (cs :: cols) (fill width cs ++ ' ' :: line) := by
  obtain ⟨gap, blank, hg⟩ := exists_gap h line
  rw [hg]
  exact .cons blank hs

theorem columns_fill {width : Nat} {cs : List Char} (hc : Column cs) (h : cs.length < width)
    (line : List Char) : columns (fill width cs ++ ' ' :: line) = cs :: columns line := by
  obtain ⟨gap, blank, hg⟩ := exists_gap h line
  rw [hg, columns_column_append hc, columns_blank_append blank]

/-- Texts with one space between them stand in one column. -/
theorem columns_joined {cs line : List Char} (hn : cs ≠ []) (hcs : ∀ c ∈ cs, isBlank c = false)
    (hline : ∀ c ∈ line.head?, isBlank c = false) :
    ∃ c rest, columns (cs ++ ' ' :: line) = (cs ++ ' ' :: c) :: rest := by
  have hspace : isBlank ' ' = true := by decide
  have hstart : trimStart (cs ++ ' ' :: line) = cs ++ ' ' :: line := by
    obtain ⟨c, cs, rfl⟩ := List.exists_cons_of_ne_nil hn
    exact List.dropWhile_cons_of_neg (Bool.eq_false_iff.1 (hcs c List.mem_cons_self))
  have hempty : (cs ++ ' ' :: line).isEmpty = false :=
    List.isEmpty_eq_false_iff.2 (List.append_ne_nil_of_left_ne_nil hn _)
  have apart {b : List Char} : line ≠ ' ' :: b := by
    rintro rfl
    exact Bool.false_ne_true ((hline ' ' rfl).symm.trans hspace)
  rw [columns, hstart, hempty, if_neg Bool.false_ne_true]
  split
  · exact ⟨line, [], rfl⟩
  · next a b hg =>
    rcases List.append_eq_append_iff.1 (eq_of_cutAtGap hg) with ⟨c, rfl, hc⟩ | ⟨c, rfl, hc⟩
    · cases c with
      | nil => exact absurd (List.cons.inj hc).2 apart
      | cons d c =>
          cases (List.cons.inj hc).1
          exact ⟨c, columns b, rfl⟩
    · cases c with
      | nil => exact absurd (List.cons.inj hc).2.symm apart
      | cons d c =>
          cases (List.cons.inj hc).1
          have hd := hcs ' ' (List.mem_append_right a List.mem_cons_self)
          exact absurd (hd.symm.trans hspace) Bool.false_ne_true

/-! ## Rows -/

theorem shows_valueText {v : Option Nat} (h : ∀ n ∈ v, n < 2 ^ 64 - 1) : Shows (valueText v) v := by
  cases v with
  | none => exact .unlimited
  | some n => exact .number (Numeral.denotes_toDigits n) (Nat.lt_of_lt_pred (h n rfl))

theorem length_valueText_lt_iff {v : Option Nat} : (valueText v).length < 20 ↔ Fits v := by
  cases v with
  | none => exact ⟨fun _ => nofun, fun _ => by decide⟩
  | some n =>
      have hn := Nat.length_toDigits_le_iff (b := 10) (n := n) (k := 19) (by decide) (by decide)
      have hv : Fits (some n) ↔ n < 10 ^ 19 :=
        ⟨fun h => h n rfl, fun h m hm => Option.some.inj hm ▸ h⟩
      rw [hv, ← hn]
      exact Nat.lt_succ_iff

/-- What follows the soft limit in a row, up to the last text. -/
def ending (l : Limit) : List Char :=
  if l.units = "" then valueText l.hard else fill 20 (valueText l.hard) ++ ' ' :: l.units.toList

/-- The row up to its last text. -/
def body (l : Limit) : List Char :=
  fill 25 l.name.toList ++ ' ' :: (fill 20 (valueText l.soft) ++ ' ' :: ending l)

theorem exists_tail (l : Limit) : ∃ tail, Blank tail ∧ fixedRow l = body l ++ tail := by
  unfold fixedRow fixedLine body ending
  split
  · next hu =>
    refine ⟨List.replicate (20 - (valueText l.hard).length) ' ' ++ ' ' :: List.replicate 10 ' ',
      List.forall_mem_append.2 ⟨blank_spaces _, blank_spaces 11⟩, ?_⟩
    rw [hu]
    simp only [fill_append, List.append_assoc, List.cons_append]
    rfl
  · refine ⟨List.replicate (10 - l.units.toList.length) ' ', blank_spaces _, ?_⟩
    simp only [fill_append, List.append_assoc, List.cons_append]

theorem Printable.tight_ending {l : Limit} (h : Printable l) :
    Tight (ending l) ∧ ending l ≠ [] := by
  have hard := shows_valueText h.hard
  have tightHard := tight_of_forall hard.not_blank
  unfold ending
  split
  · exact ⟨tightHard, hard.ne_nil⟩
  · next hu =>
    have units := h.proper.units hu
    have tight := tight_around tightHard hard.ne_nil units.tight units.filled
      (List.replicate (20 - (valueText l.hard).length) ' ' ++ [' '])
    rw [fill_append]
    simp only [List.append_assoc, List.cons_append, List.nil_append] at tight ⊢
    exact ⟨tight, List.append_ne_nil_of_left_ne_nil hard.ne_nil _⟩

theorem Printable.tight_body {l : Limit} (h : Printable l) : Tight (body l) ∧ body l ≠ [] := by
  obtain ⟨tightEnding, filled⟩ := h.tight_ending
  have tight := tight_around h.proper.name.tight h.proper.name.filled tightEnding filled
    (List.replicate (25 - l.name.toList.length) ' ' ++ ' ' :: (fill 20 (valueText l.soft) ++ [' ']))
  rw [body, fill_append]
  simp only [List.append_assoc, List.cons_append, List.nil_append] at tight ⊢
  exact ⟨tight, List.append_ne_nil_of_left_ne_nil h.proper.name.filled _⟩

theorem Printable.trim_fixedRow {l : Limit} (h : Printable l) : trim (fixedRow l) = body l := by
  obtain ⟨tail, blank, ht⟩ := exists_tail l
  have hb := trim_between (a := []) nofun h.tight_body.1 blank
  rwa [List.nil_append, ← ht] at hb

theorem Printable.name_lt {l : Limit} (h : Printable l) : l.name.toList.length < 25 :=
  Nat.lt_succ_of_le h.short

/-- With room behind its values a row is one of the limit. -/
theorem Printable.writes {l : Limit} (h : Printable l) (roomy : Roomy l) : Writes l (body l) := by
  obtain ⟨hs, hh⟩ := roomy
  refine ⟨_, _, shows_valueText h.soft, shows_valueText h.hard, ?_⟩
  have spaced {cols : List (List Char)} {rest : List Char} (hr : Spaced cols rest) :
      Spaced (l.name.toList :: valueText l.soft :: cols)
        (fill 25 l.name.toList ++ ' ' :: (fill 20 (valueText l.soft) ++ ' ' :: rest)) :=
    spaced_fill h.name_lt (spaced_fill (length_valueText_lt_iff.2 hs) hr)
  unfold columnsOf body ending
  by_cases hu : l.units = ""
  · rw [if_pos hu, if_pos hu]
    exact spaced (.last _)
  · rw [if_neg hu, if_neg hu]
    have hh := length_valueText_lt_iff.2 (hh.resolve_left hu)
    exact spaced (spaced_fill hh (.last _))

theorem Blames.limit {name : List Char} {cols : List (List Char)} {fault : Fault}
    (h : Blames (name :: cols) fault) : fault.limit = String.ofList name := by
  cases h <;> rfl

theorem valueless_of_space {cs c : List Char} (v : Option Nat) : ¬ Shows (cs ++ ' ' :: c) v := by
  intro h
  have hb := h.not_blank ' ' (List.mem_append_right cs List.mem_cons_self)
  exact absurd hb (by decide)

/-- Without room behind its values a row lacks a column. -/
theorem Printable.lacks {l : Limit} (h : Printable l) (crowded : ¬ Roomy l) :
    ∃ cols, columns (body l) = l.name.toList :: cols ∧ Lacks (l.name.toList :: cols) := by
  have soft := shows_valueText h.soft
  have hard := shows_valueText h.hard
  have wide {v : Option Nat} (hv : ¬ Fits v) : fill 20 (valueText v) = valueText v :=
    fill_of_le (Nat.le_of_not_lt fun hl => hv (length_valueText_lt_iff.1 hl))
  have name := columns_fill h.proper.name.column h.name_lt
  -- The first value without room takes in the text behind it, so that it holds a space.
  by_cases hs : Fits l.soft
  · have hu : l.units ≠ "" := fun hu => crowded ⟨hs, .inl hu⟩
    have hh : ¬ Fits l.hard := fun hh => crowded ⟨hs, .inr hh⟩
    obtain ⟨c, rest, hc⟩ := columns_joined hard.ne_nil hard.not_blank (h.proper.units hu).tight.1
    refine ⟨valueText l.soft :: (valueText l.hard ++ ' ' :: c) :: rest, ?_,
      .hard valueless_of_space⟩
    rw [body, name, columns_fill soft.column (length_valueText_lt_iff.2 hs), ending, if_neg hu,
      wide hh, hc]
  · obtain ⟨c, rest, hc⟩ := columns_joined soft.ne_nil soft.not_blank h.tight_ending.1.1
    refine ⟨(valueText l.soft ++ ' ' :: c) :: rest, by rw [body, name, wide hs, hc], ?_⟩
    cases rest with
    | nil => exact .short (Nat.lt_succ_self 2)
    | cons => exact .soft valueless_of_space

theorem Printable.ofColumns_ok {l : Limit} (h : Printable l) (roomy : Roomy l) :
    ofColumns (columns (body l)) = .ok l := ofColumns_of_writes h.proper (h.writes roomy)

theorem Printable.ofColumns_error {l : Limit} (h : Printable l) (crowded : ¬ Roomy l) :
    ∃ fault, ofColumns (columns (body l)) = .error fault ∧ fault.limit = l.name := by
  obtain ⟨cols, hc, lacks⟩ := h.lacks crowded
  obtain ⟨fault, blames⟩ := (lacks_iff (List.cons_ne_nil _ _)).1 lacks
  refine ⟨fault, ?_, ?_⟩
  · rw [hc]
    exact ofColumns_of_blames blames
  · rw [blames.limit, String.ofList_toList]

/-! ## Tables -/

theorem not_mem_fill {c : Char} {cs : List Char} (hc : c ≠ ' ') (h : c ∉ cs) (width : Nat) :
    c ∉ fill width cs := by
  rw [fill_append, List.mem_append, not_or]
  exact ⟨h, fun hm => hc (List.eq_of_mem_replicate hm)⟩

theorem Printable.newline_not_mem {l : Limit} (h : Printable l) : '\n' ∉ fixedRow l := by
  have hs : '\n' ≠ ' ' := by decide
  have value {v : Option Nat} (hv : ∀ n ∈ v, n < 2 ^ 64 - 1) : '\n' ∉ valueText v :=
    fun hm => absurd ((shows_valueText hv).not_blank '\n' hm) (by decide)
  have units : '\n' ∉ l.units.toList := by
    by_cases hu : l.units = ""
    · rw [hu]
      exact List.not_mem_nil
    · exact (h.proper.units hu).oneLine
  have after {cs rest : List Char} (hcs : '\n' ∉ cs) (hr : '\n' ∉ rest) (width : Nat) :
      '\n' ∉ fill width cs ++ ' ' :: rest := by
    rw [List.mem_append, List.mem_cons, not_or, not_or]
    exact ⟨not_mem_fill hs hcs width, hs, hr⟩
  exact after h.proper.name.oneLine
    (after (value h.soft) (after (value h.hard) (not_mem_fill hs units 10) 20) 20) 25

theorem consists_print {limits : List Limit} (printable : ∀ l ∈ limits, Printable l) :
    Consists (print limits).toList (trim headerLine :: limits.map body) := by
  have hrows : limits.map body = (limits.map fixedRow).map trim := by
    rw [List.map_map]
    exact List.map_congr_left fun l hl => (printable l hl).trim_fixedRow.symm
  rw [print, String.toList_ofList, hrows, ← List.map_cons (f := trim)]
  refine consists_flatMap (List.forall_mem_cons.2 ⟨?_, ?_⟩) (List.forall_mem_cons.2 ⟨?_, ?_⟩)
  · decide
  · intro row hr
    obtain ⟨l, hl, rfl⟩ := List.mem_map.1 hr
    exact (printable l hl).newline_not_mem
  · decide
  · intro row hr
    obtain ⟨l, hl, rfl⟩ := List.mem_map.1 hr
    rw [(printable l hl).trim_fixedRow]
    exact (printable l hl).tight_body.2

theorem parse_print {limits : List Limit} (printable : ∀ l ∈ limits, Printable l) :
    parse (print limits) = (limits.mapM fun l => ofColumns (columns (body l))).map Limits.mk := by
  rw [parse_eq (consists_print printable), List.mapM_map]
  rfl

def fileSize (n : Nat) : Limit := ⟨"Max file size", some n, none, "bytes"⟩

theorem printable_fileSize {n : Nat} (hn : n < 2 ^ 64 - 1) : Printable (fileSize n) where
  proper := by
    have name : Neat "Max file size".toList := by decide
    have units : Neat "bytes".toList := by decide
    exact ⟨name, fun _ => units⟩
  short := by
    show "Max file size".length ≤ 24
    decide
  soft := fun _ hm => Option.some.inj hm ▸ hn
  hard := nofun

/-- The kernel's table is read as its limits exactly if all of them have room. Otherwise the first
that has none gives the error. -/
theorem print_read {limits : List Limit} (printable : ∀ l ∈ limits, Printable l) :
    (parse (print limits) = .ok ⟨limits⟩ ↔ ∀ l ∈ limits, Roomy l) ∧
    ∀ before l behind, limits = before ++ l :: behind → (∀ b ∈ before, Roomy b) → ¬ Roomy l →
      ∃ fault, parse (print limits) = .error fault ∧ fault.limit = l.name := by
  rw [parse_print printable]
  refine ⟨⟨fun h l hl => ?_, fun h => ?_⟩, ?_⟩
  · by_contra crowded
    obtain ⟨read, hr, -⟩ := Except.map_eq_ok_iff.1 h
    obtain ⟨l', hok⟩ := exists_mapM_iff.1 ⟨read, hr⟩ l hl
    obtain ⟨fault, he, -⟩ := (printable l hl).ofColumns_error crowded
    exact nomatch hok.symm.trans he
  · have read : (limits.mapM fun l => ofColumns (columns (body l))) = .ok limits :=
      mapM_eq_ok_iff.2 (List.forall₂_same.2 fun l hl => (printable l hl).ofColumns_ok (h l hl))
    rw [read]
    rfl
  · rintro before l behind rfl hb crowded
    obtain ⟨fault, he, hf⟩ :=
      (printable l (List.mem_append_right before List.mem_cons_self)).ofColumns_error crowded
    refine ⟨fault, ?_, hf⟩
    rw [Except.map_eq_error_iff, mapM_eq_error_iff]
    exact ⟨before, l, behind, rfl,
      fun b hm => ⟨b, (printable b (List.mem_append_left _ hm)).ofColumns_ok (hb b hm)⟩, he⟩

theorem print_read_fileSize :
    parse (print [fileSize (10 ^ 19 - 1)]) = .ok ⟨[fileSize (10 ^ 19 - 1)]⟩ ∧
      ∃ fault, parse (print [fileSize (10 ^ 19)]) = .error fault ∧ fault.limit = "Max file size" := by
  have printable {n : Nat} (hn : n < 2 ^ 64 - 1) : ∀ l ∈ [fileSize n], Printable l :=
    List.forall_mem_singleton.2 (printable_fileSize hn)
  constructor
  · refine (print_read (printable (by decide))).1.2 (List.forall_mem_singleton.2 ⟨?_, .inr nofun⟩)
    exact fun m hm => Option.some.inj hm ▸ (by decide)
  · refine (print_read (printable (by decide))).2 [] _ [] rfl nofun fun roomy => ?_
    exact Nat.lt_irrefl _ (roomy.1 (10 ^ 19) rfl)

example : print [⟨"Max open files", some 1024, none, "files"⟩] =
    "Limit                     Soft Limit           Hard Limit           Units     \n" ++
    "Max open files            1024                 unlimited            files     \n" := by
  decide +kernel

/-- The soft limit of 20 digits and the hard limit are read as one column, which shows no value. -/
theorem print_unread :
    (∀ l ∈ [fileSize (10 ^ 19)], Printable l) ∧
      parse (print [fileSize (10 ^ 19)]) = .error (.badSoft "Max file size" .invalidDigit) :=
  ⟨List.forall_mem_singleton.2 (printable_fileSize (by decide)), by decide +kernel⟩

end Limits
end Telemetry
