import Telemetry.Proofs.Fallible
import Telemetry.Proofs.Process.Table
import Telemetry.Proofs.Text.Numerals
import Telemetry.Process.Limits
/-!
Tables of limits and the rows that they tell.

Whatever the gaps between its columns, a row tells one limit or has one fault. A table is read
exactly if each of its rows tells a limit. Otherwise the first row that tells none gives the error.
-/

namespace Telemetry
namespace Limits

open Table Text

/-- The text of a value: the word for an unlimited resource, or a numeral. -/
inductive Shows : List Char → Option Nat → Prop
  | unlimited : Shows unlimited.toList none
  | number {cs : List Char} {n : Nat} (denotes : Numeral.Denotes cs n) (fits : n < 2 ^ 64) :
      Shows cs (some n)

/-- The columns of a limit. Columns behind the unit do not count. -/
inductive Tells : List (List Char) → Limit → Prop
  | row {name soft hard : List Char} {s h : Option Nat} (rest : List (List Char))
      (softShows : Shows soft s) (hardShows : Shows hard h) :
      Tells (name :: soft :: hard :: rest)
        ⟨String.ofList name, s, h, String.ofList (rest.headD [])⟩

/-- Why no value can be read from a column. -/
def Spoils (cs : List Char) (fault : Numeral.Fault) : Prop :=
  cs ≠ unlimited.toList ∧ Numeral.parse Numeral.limit64 cs = .error fault

/-- The first fault of the columns, which names their limit. -/
inductive Blames : List (List Char) → Fault → Prop
  | noSoft (name : List Char) : Blames [name] (.noSoft (String.ofList name))
  | noHard (name soft : List Char) : Blames [name, soft] (.noHard (String.ofList name))
  | badSoft {name soft hard : List Char} {rest : List (List Char)} {fault : Numeral.Fault}
      (spoils : Spoils soft fault) :
      Blames (name :: soft :: hard :: rest) (.badSoft (String.ofList name) fault)
  | badHard {name soft hard : List Char} {rest : List (List Char)} {s : Option Nat}
      {fault : Numeral.Fault} (shows : Shows soft s) (spoils : Spoils hard fault) :
      Blames (name :: soft :: hard :: rest) (.badHard (String.ofList name) fault)

/-- There are fewer than three columns, or no value stands in the second or the third of them. -/
inductive Lacks : List (List Char) → Prop
  | short {cols : List (List Char)} (short : cols.length < 3) : Lacks cols
  | soft {name soft hard : List Char} {rest : List (List Char)} (valueless : ∀ v, ¬ Shows soft v) :
      Lacks (name :: soft :: hard :: rest)
  | hard {name soft hard : List Char} {rest : List (List Char)} (valueless : ∀ v, ¬ Shows hard v) :
      Lacks (name :: soft :: hard :: rest)

def Unreadable (row : List Char) : Prop := ∃ cols, Columned row cols ∧ Lacks cols

def Faulty (row : List Char) (fault : Fault) : Prop := ∃ cols, Columned row cols ∧ Blames cols fault

/-- The text can stand in a column of a line, and trimming leaves it as it is. -/
structure Neat (cs : List Char) : Prop where
  filled : cs ≠ []
  oneLine : '\n' ∉ cs
  tight : Tight cs
  whole : ¬ [' ', ' '] <:+: cs

/-- The limit has a name, and its texts can stand in columns. The unit may be missing. -/
structure Proper (l : Limit) : Prop where
  name : Neat l.name.toList
  units : l.units ≠ "" → Neat l.units.toList

/-- The columns of a limit with these texts for its values. A missing unit has no column. -/
def columnsOf (l : Limit) (soft hard : List Char) : List (List Char) :=
  if l.units = "" then [l.name.toList, soft, hard]
  else [l.name.toList, soft, hard, l.units.toList]

/-- The limit is written in the row, with some gap between any two of its columns. -/
def Writes (l : Limit) (row : List Char) : Prop :=
  ∃ soft hard, Shows soft l.soft ∧ Shows hard l.hard ∧ Spaced (columnsOf l soft hard) row

/-- The first limit of a name. -/
def First (name : String) (limits : List Limit) (l : Limit) : Prop :=
  ∃ before behind, limits = before ++ l :: behind ∧ l.name = name ∧ ∀ b ∈ before, b.name ≠ name

/-! ## Values -/

theorem parseValue_eq_ok_iff {cs : List Char} {v : Option Nat} :
    parseValue cs = .ok v ↔ Shows cs v := by
  have hl : 0 < Numeral.limit64 := by decide
  have hword : Numeral.parse Numeral.limit64 unlimited.toList = .error .invalidDigit := by rfl
  unfold parseValue
  constructor
  · intro h
    split at h
    · next hc =>
      cases h
      rw [hc]
      exact .unlimited
    · obtain ⟨n, hn, rfl⟩ := Except.map_eq_ok_iff.1 h
      obtain ⟨denotes, fits⟩ := (Numeral.parse_eq_ok_iff hl).1 hn
      exact .number denotes fits
  · rintro (_ | ⟨denotes, fits⟩)
    · exact if_pos rfl
    · have hn := (Numeral.parse_eq_ok_iff hl).2 ⟨denotes, fits⟩
      rw [hn, if_neg]
      · rfl
      · rintro rfl
        exact nomatch hword.symm.trans hn

theorem parseValue_eq_error_iff {cs : List Char} {fault : Numeral.Fault} :
    parseValue cs = .error fault ↔ Spoils cs fault := by
  unfold parseValue Spoils
  by_cases hc : cs = unlimited.toList
  · rw [if_pos hc]
    exact ⟨nofun, fun h => absurd hc h.1⟩
  · rw [if_neg hc, Except.map_eq_error_iff]
    exact ⟨fun h => ⟨hc, h⟩, fun h => h.2⟩

theorem valueless_iff {cs : List Char} : (∀ v, ¬ Shows cs v) ↔ ∃ fault, Spoils cs fault := by
  constructor
  · intro h
    cases hv : parseValue cs with
    | ok v => exact absurd (parseValue_eq_ok_iff.1 hv) (h v)
    | error fault => exact ⟨fault, parseValue_eq_error_iff.1 hv⟩
  · rintro ⟨fault, spoils⟩ v shows
    exact nomatch (parseValue_eq_error_iff.2 spoils).symm.trans (parseValue_eq_ok_iff.2 shows)

theorem Shows.ne_nil {cs : List Char} {v : Option Nat} (h : Shows cs v) : cs ≠ [] := by
  cases h with
  | unlimited => decide
  | number denotes fits => exact denotes.ne_nil

theorem Shows.not_blank {cs : List Char} {v : Option Nat} (h : Shows cs v) :
    ∀ c ∈ cs, isBlank c = false := by
  cases h with
  | unlimited => exact not_blank_of_all (by decide)
  | number denotes fits => exact denotes.not_blank

theorem Shows.column {cs : List Char} {v : Option Nat} (h : Shows cs v) : Column cs :=
  column_of_not_blank h.ne_nil h.not_blank

/-! ## Rows -/

theorem ofColumns_eq_ok_iff {cols : List (List Char)} {l : Limit} :
    ofColumns cols = .ok l ↔ Tells cols l := by
  constructor
  · intro h
    unfold ofColumns at h
    split at h
    · exact nomatch h
    · exact nomatch h
    · exact nomatch h
    · split at h
      · exact nomatch h
      · next hs =>
        split at h
        · exact nomatch h
        · next hh =>
          cases h
          exact .row _ (parseValue_eq_ok_iff.1 hs) (parseValue_eq_ok_iff.1 hh)
  · rintro ⟨rest, softShows, hardShows⟩
    unfold ofColumns
    simp only [parseValue_eq_ok_iff.2 softShows, parseValue_eq_ok_iff.2 hardShows]

theorem ofColumns_of_blames {cols : List (List Char)} {fault : Fault} (h : Blames cols fault) :
    ofColumns cols = .error fault := by
  cases h with
  | noSoft name => rfl
  | noHard name soft => rfl
  | badSoft spoils =>
      unfold ofColumns
      simp only [parseValue_eq_error_iff.2 spoils]
  | badHard shows spoils =>
      unfold ofColumns
      simp only [parseValue_eq_ok_iff.2 shows, parseValue_eq_error_iff.2 spoils]

theorem ofColumns_eq_error_iff {cols : List (List Char)} {fault : Fault} (hn : cols ≠ []) :
    ofColumns cols = .error fault ↔ Blames cols fault := by
  refine ⟨fun h => ?_, ofColumns_of_blames⟩
  unfold ofColumns at h
  split at h
  · exact absurd rfl hn
  · cases h
    exact .noSoft _
  · cases h
    exact .noHard _ _
  · split at h
    · next hs =>
      cases h
      exact .badSoft (parseValue_eq_error_iff.1 hs)
    · next hs =>
      split at h
      · next hh =>
        cases h
        exact .badHard (parseValue_eq_ok_iff.1 hs) (parseValue_eq_error_iff.1 hh)
      · exact nomatch h

/-- Columns lack something exactly if a fault is found in them. -/
theorem lacks_iff {cols : List (List Char)} (hn : cols ≠ []) :
    Lacks cols ↔ ∃ fault, Blames cols fault := by
  constructor
  · rintro (short | valueless | @⟨name, soft, hard, rest, valueless⟩)
    · match cols, hn, short with
      | [name], _, _ => exact ⟨_, .noSoft name⟩
      | [name, soft], _, _ => exact ⟨_, .noHard name soft⟩
    · obtain ⟨fault, spoils⟩ := valueless_iff.1 valueless
      exact ⟨_, .badSoft spoils⟩
    · obtain ⟨fault, spoils⟩ := valueless_iff.1 valueless
      cases hs : parseValue soft with
      | ok s => exact ⟨_, .badHard (parseValue_eq_ok_iff.1 hs) spoils⟩
      | error fault => exact ⟨_, .badSoft (parseValue_eq_error_iff.1 hs)⟩
  · rintro ⟨fault, blames⟩
    cases blames with
    | noSoft name => exact .short (Nat.lt_add_of_pos_left (by decide))
    | noHard name soft => exact .short (Nat.lt_succ_self 2)
    | badSoft spoils => exact .soft (valueless_iff.2 ⟨_, spoils⟩)
    | badHard shows spoils => exact .hard (valueless_iff.2 ⟨_, spoils⟩)

theorem ofColumns_columns_eq_error_iff {row : List Char} {fault : Fault} (ht : Tight row)
    (hn : row ≠ []) : ofColumns (columns row) = .error fault ↔ Faulty row fault := by
  have columned := (columns_eq_iff ht hn).1 rfl
  rw [ofColumns_eq_error_iff columned.ne_nil]
  constructor
  · intro blames
    exact ⟨_, columned, blames⟩
  · rintro ⟨cols, columned, blames⟩
    rw [columns_of_columned columned]
    exact blames

/-- A row cannot be read exactly if there is a fault in it. -/
theorem unreadable_iff {row : List Char} : Unreadable row ↔ ∃ fault, Faulty row fault := by
  constructor
  · rintro ⟨cols, columned, lacks⟩
    obtain ⟨fault, blames⟩ := (lacks_iff columned.ne_nil).1 lacks
    exact ⟨fault, cols, columned, blames⟩
  · rintro ⟨fault, cols, columned, blames⟩
    exact ⟨cols, columned, (lacks_iff columned.ne_nil).2 ⟨fault, blames⟩⟩

theorem readable_iff {row : List Char} (ht : Tight row) (hn : row ≠ []) :
    (∃ l, ofColumns (columns row) = .ok l) ↔ ¬ Unreadable row := by
  simp only [unreadable_iff, ← ofColumns_columns_eq_error_iff ht hn]
  exact Except.exists_eq_ok_iff

theorem neat_iff {cs : List Char} :
    Neat cs ↔ cs ≠ [] ∧ '\n' ∉ cs ∧ trim cs = cs ∧ cutAtGap cs = none := by
  rw [trim_eq_self_iff, cutAtGap_eq_none_iff]
  constructor
  · intro h
    exact ⟨h.filled, h.oneLine, h.tight, h.whole⟩
  · rintro ⟨filled, oneLine, tight, whole⟩
    exact ⟨filled, oneLine, tight, whole⟩

instance (cs : List Char) : Decidable (Neat cs) := decidable_of_iff _ neat_iff.symm

theorem Neat.column {cs : List Char} (h : Neat cs) : Column cs :=
  column_of_tight h.tight h.filled h.whole

/-- A limit is read from its columns. -/
theorem tells_columnsOf {l : Limit} {soft hard : List Char} (softShows : Shows soft l.soft)
    (hardShows : Shows hard l.hard) : Tells (columnsOf l soft hard) l := by
  obtain ⟨name, s, h, units⟩ := l
  unfold columnsOf
  split
  · next hu =>
    cases hu
    have tells := @Tells.row name.toList soft hard s h [] softShows hardShows
    rwa [String.ofList_toList] at tells
  · have tells := @Tells.row name.toList soft hard s h [units.toList] softShows hardShows
    rwa [String.ofList_toList, List.headD_cons, String.ofList_toList] at tells

theorem Proper.columns {l : Limit} (h : Proper l) {soft hard : List Char}
    (softShows : Shows soft l.soft) (hardShows : Shows hard l.hard) :
    ∀ c ∈ columnsOf l soft hard, Column c := by
  have three {rest : List (List Char)} (hr : ∀ c ∈ rest, Column c) :
      ∀ c ∈ l.name.toList :: soft :: hard :: rest, Column c :=
    List.forall_mem_cons.2 ⟨h.name.column, List.forall_mem_cons.2 ⟨softShows.column,
      List.forall_mem_cons.2 ⟨hardShows.column, hr⟩⟩⟩
  unfold columnsOf
  split
  · exact three nofun
  · next hu => exact three (List.forall_mem_singleton.2 (h.units hu).column)

theorem ofColumns_of_writes {l : Limit} {row : List Char} (proper : Proper l)
    (writes : Writes l row) : ofColumns (columns row) = .ok l := by
  obtain ⟨soft, hard, softShows, hardShows, spaced⟩ := writes
  have columned : Columned row (columnsOf l soft hard) :=
    ⟨spaced, proper.columns softShows hardShows⟩
  rw [columns_of_columned columned, ofColumns_eq_ok_iff]
  exact tells_columnsOf softShows hardShows

/-! ## Tables -/

theorem ofRows_eq (rows : List (List Char)) :
    ofRows rows = rows.mapM fun row => ofColumns (columns row) := by
  induction rows with
  | nil => rfl
  | cons row rows ih =>
      unfold ofRows
      cases hc : ofColumns (columns row) with
      | error fault => exact (mapM_cons_error (f := fun row => ofColumns (columns row)) hc).symm
      | ok l => rw [mapM_cons_ok (f := fun row => ofColumns (columns row)) hc, ih]

theorem parse_eq {text : String} {header : List Char} {rows : List (List Char)}
    (h : Consists text.toList (header :: rows)) :
    parse text = (rows.mapM fun row => ofColumns (columns row)).map Limits.mk := by
  rw [← ofRows_eq, parse, Table.rows, lines_eq_iff.2 h, List.drop_one, List.tail_cons]

theorem parse_of_writes {text : String} {header : List Char} {rows : List (List Char)}
    {limits : List Limit} (h : Consists text.toList (header :: rows))
    (proper : ∀ l ∈ limits, Proper l) (writes : List.Forall₂ Writes limits rows) :
    parse text = .ok ⟨limits⟩ := by
  have read : List.Forall₂ (fun row l => ofColumns (columns row) = .ok l) rows limits := by
    clear h
    induction writes with
    | nil => exact .nil
    | cons hw _ ih =>
        obtain ⟨hp, proper⟩ := List.forall_mem_cons.1 proper
        exact .cons (ofColumns_of_writes hp hw) (ih proper)
  rw [parse_eq h, Except.map_eq_ok_iff]
  exact ⟨limits, mapM_eq_ok_iff.2 read, rfl⟩

theorem exists_parse_iff {text : String} {header : List Char} {rows : List (List Char)}
    (h : Consists text.toList (header :: rows)) :
    (∃ table, parse text = .ok table) ↔ ∀ row ∈ rows, ¬ Unreadable row := by
  have hrows : (∃ table, parse text = .ok table) ↔
      ∃ limits, (rows.mapM fun row => ofColumns (columns row)) = .ok limits := by
    simp only [parse_eq h, Except.map_eq_ok_iff]
    exact ⟨fun ⟨_, limits, hl, _⟩ => ⟨limits, hl⟩, fun ⟨limits, hl⟩ => ⟨_, limits, hl, rfl⟩⟩
  rw [hrows, exists_mapM_iff]
  refine forall₂_congr fun row hr => ?_
  obtain ⟨ht, hn⟩ := h.tight row (List.mem_cons_of_mem header hr)
  exact readable_iff ht hn

/-- A table fails exactly with the fault of its first row that has one. -/
theorem parse_eq_error_iff {text : String} {header : List Char} {rows : List (List Char)}
    {fault : Fault} (h : Consists text.toList (header :: rows)) :
    parse text = .error fault ↔
      ∃ before row behind, rows = before ++ row :: behind ∧ (∀ b ∈ before, ¬ Unreadable b) ∧
        Faulty row fault := by
  rw [parse_eq h, Except.map_eq_error_iff, mapM_eq_error_iff]
  refine exists₃_congr fun before row behind => and_congr_right fun hrows => ?_
  have filled {r : List Char} (hr : r ∈ before ++ row :: behind) : Tight r ∧ r ≠ [] :=
    h.tight r (List.mem_cons_of_mem header (hrows ▸ hr))
  obtain ⟨ht, hn⟩ := filled (List.mem_append_right before List.mem_cons_self)
  rw [ofColumns_columns_eq_error_iff ht hn]
  refine and_congr_left' (forall₂_congr fun b hb => ?_)
  obtain ⟨ht, hn⟩ := filled (List.mem_append_left _ hb)
  exact readable_iff ht hn

theorem get?_eq_some_iff {t : Limits} {name : String} {l : Limit} :
    t.get? name = some l ↔ First name t.rows l := by
  unfold get? First
  simp only [List.find?_eq_some_iff_append, beq_iff_eq, Bool.not_eq_eq_eq_not, Bool.not_true,
    beq_eq_false_iff_ne]
  constructor
  · rintro ⟨hl, before, behind, hr, hb⟩
    exact ⟨before, behind, hr, hl, hb⟩
  · rintro ⟨before, behind, hr, hl, hb⟩
    exact ⟨hl, before, behind, hr, hb⟩

theorem get?_eq_none_iff {t : Limits} {name : String} :
    t.get? name = none ↔ ∀ l ∈ t.rows, l.name ≠ name := by
  unfold get?
  simp only [List.find?_eq_none, beq_iff_eq, Ne]

/-- A text that consists of a header and the rows of some limits is read as these limits, and each
is found again by its name unless another of that name stands before it. With a row that cannot be
read the text is not read either, and the first such row gives the error. -/
theorem table_read {text : String} {header : List Char} {rows : List (List Char)}
    (consists : Consists text.toList (header :: rows)) :
    (∀ limits, (∀ l ∈ limits, Proper l) → List.Forall₂ Writes limits rows →
      ∃ table, parse text = .ok table ∧ table.rows = limits ∧
        ∀ name, (∀ l, table.get? name = some l ↔ First name limits l) ∧
          (table.get? name = none ↔ ∀ l ∈ limits, l.name ≠ name)) ∧
    ((∃ row ∈ rows, Unreadable row) →
      ∃ before row behind fault, rows = before ++ row :: behind ∧ (∀ b ∈ before, ¬ Unreadable b) ∧
        Unreadable row ∧ Faulty row fault ∧ parse text = .error fault) := by
  constructor
  · intro limits proper writes
    exact ⟨⟨limits⟩, parse_of_writes consists proper writes, rfl,
      fun name => ⟨fun l => get?_eq_some_iff, get?_eq_none_iff⟩⟩
  · rintro ⟨row, hr, unreadable⟩
    cases hp : parse text with
    | ok table =>
        exact absurd unreadable ((exists_parse_iff consists).1 ⟨table, hp⟩ row hr)
    | error fault =>
        obtain ⟨before, row, behind, hrows, hb, faulty⟩ := (parse_eq_error_iff consists).1 hp
        exact ⟨before, row, behind, fault, hrows, hb, unreadable_iff.2 ⟨fault, faulty⟩, faulty, rfl⟩

theorem table_read_fixture :
    (∃ table,
      parse "\n Limit  Soft Limit \n\nMax open files   1024  unlimited  files\t\n Nice  7  +0 " =
        .ok table ∧
      table.rows = [⟨"Max open files", some 1024, none, "files"⟩, ⟨"Nice", some 7, some 0, ""⟩] ∧
      ∀ l, table.get? "Nice" = some l ↔ First "Nice" table.rows l) ∧
    ∃ fault, parse "Limit\nNice  7  +0\nMax open files  1024\n" = .error fault := by
  constructor
  · have consists : Consists
        "\n Limit  Soft Limit \n\nMax open files   1024  unlimited  files\t\n Nice  7  +0 ".toList
        ["Limit  Soft Limit".toList, "Max open files   1024  unlimited  files".toList,
          "Nice  7  +0".toList] := lines_eq_iff.1 (by rfl)
    have proper : ∀ l ∈ [(⟨"Max open files", some 1024, none, "files"⟩ : Limit),
        ⟨"Nice", some 7, some 0, ""⟩], Proper l :=
      List.forall_mem_cons.2 ⟨⟨by decide, fun _ => by decide⟩,
        List.forall_mem_singleton.2 ⟨by decide, fun hu => absurd rfl hu⟩⟩
    have writes {l : Limit} {row : List Char} (soft hard : String) (filled : Tight row ∧ row ≠ [])
        (softShows : parseValue soft.toList = .ok l.soft)
        (hardShows : parseValue hard.toList = .ok l.hard)
        (hc : columns row = columnsOf l soft.toList hard.toList) : Writes l row :=
      ⟨_, _, parseValue_eq_ok_iff.1 softShows, parseValue_eq_ok_iff.1 hardShows,
        ((columns_eq_iff filled.1 filled.2).1 hc).1⟩
    obtain ⟨-, filled⟩ := List.forall_mem_cons.1 consists.tight
    obtain ⟨first, filled⟩ := List.forall_mem_cons.1 filled
    have second := List.forall_mem_singleton.1 filled
    obtain ⟨table, hp, hrows, hget⟩ := (table_read consists).1 _ proper
      (.cons (writes "1024" "unlimited" first (by decide +kernel) rfl (by decide +kernel))
        (.cons (writes "7" "+0" second (by decide +kernel) (by decide +kernel) (by decide +kernel))
          .nil))
    exact ⟨table, hp, hrows, hrows ▸ (hget "Nice").1⟩
  · have consists : Consists "Limit\nNice  7  +0\nMax open files  1024\n".toList
        ["Limit".toList, "Nice  7  +0".toList, "Max open files  1024".toList] :=
      lines_eq_iff.1 (by rfl)
    obtain ⟨-, filled⟩ := List.forall_mem_cons.1 consists.tight
    have second := List.forall_mem_singleton.1 (List.forall_mem_cons.1 filled).2
    have columned :
        Columned "Max open files  1024".toList ["Max open files".toList, "1024".toList] :=
      (columns_eq_iff second.1 second.2).1 (by decide +kernel)
    obtain ⟨_, _, _, fault, -, -, -, -, hp⟩ := (table_read consists).2
      ⟨_, by decide, _, columned, .short (by decide)⟩
    exact ⟨fault, hp⟩

end Limits
end Telemetry
