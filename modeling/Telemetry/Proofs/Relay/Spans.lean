import Telemetry.Proofs.Fallible
import Telemetry.Proofs.Text.Cutting
import Telemetry.Proofs.Text.Numerals
import Telemetry.Relay.Document
/-!
What texts of time spans mean.

A text that is read is a zero alone, groups of a number and a unit, or bare digits for seconds.
Which of these it is can be told from the text itself: groups have a unit, and bare digits have
nothing else. So the two ways of reading a text never get into each other's way.
-/

namespace Telemetry

/-- No name stands twice in the list. -/
theorem lookup_eq_some_iff_mem {α β : Type} [BEq α] [LawfulBEq α] {l : List (α × β)} {a : α} {b : β}
    (h : ∀ u ∈ l, l.lookup u.1 = some u.2) : l.lookup a = some b ↔ (a, b) ∈ l := by
  constructor
  · intro hl
    obtain ⟨before, behind, he, -⟩ := List.lookup_eq_some_iff.1 hl
    rw [he]
    exact List.mem_append_right before List.mem_cons_self
  · intro hm
    exact h (a, b) hm

namespace Interval

open Decimal Text

/-- A number and a unit, with blanks around the unit. -/
structure Group where
  number : List Char
  before : List Char
  unit : List Char × Nat
  behind : List Char
  digits : Digits number
  number_ne_nil : number ≠ []
  known : unit ∈ units
  blank_before : Blank before
  blank_behind : Blank behind

namespace Group

/-- All that stands behind the number. -/
def tail (g : Group) : List Char := g.before ++ g.unit.1 ++ g.behind

def text (g : Group) : List Char := g.number ++ g.tail

def nanos (g : Group) : Nat := Nat.ofDigitChars 10 g.number 0 * g.unit.2

end Group

/-- The text is a sequence of groups, and their spans add up to so many nanoseconds. -/
def Spells (cs : List Char) (total : Nat) : Prop :=
  ∃ gs : List Group, gs ≠ [] ∧ gs.flatMap Group.text = cs ∧ (gs.map Group.nanos).sum = total

/-! ## Units -/

theorem limit_pos : 0 < limit := by decide

theorem lookup_units {name : List Char} {nanos : Nat} :
    units.lookup name = some nanos ↔ (name, nanos) ∈ units :=
  lookup_eq_some_iff_mem (by decide)

/-- A unit is letters, of which there is at least one. -/
theorem unit_letters {u : List Char × Nat} (h : u ∈ units) :
    u.1 ≠ [] ∧ ∀ c ∈ u.1, isBlank c = false ∧ c.isDigit = false := by
  have hall : (units.all fun u =>
      !u.1.isEmpty && u.1.all fun c => !(isBlank c || c.isDigit)) = true := by decide +kernel
  have hu := List.all_eq_true.1 hall u h
  simp only [Bool.and_eq_true, Bool.not_eq_true', List.isEmpty_eq_false_iff, List.all_eq_true,
    Bool.or_eq_false_iff] at hu
  exact hu

theorem unit_pos {u : List Char × Nat} (h : u ∈ units) : 0 < u.2 := by
  have hall : ∀ u ∈ units, 0 < u.2 := by decide
  exact hall u h

namespace Group

theorem trim_tail (g : Group) : trim g.tail = g.unit.1 :=
  trim_between g.blank_before (tight_of_forall fun c hc => ((unit_letters g.known).2 c hc).1)
    g.blank_behind

theorem tail_ne_nil (g : Group) : g.tail ≠ [] := by
  intro h
  have ht := g.trim_tail
  rw [h] at ht
  exact (unit_letters g.known).1 ht.symm

/-- The next digit belongs to the next group. -/
theorem not_digit_of_mem_tail (g : Group) : ∀ c ∈ g.tail, c.isDigit = false := by
  have blank {cs : List Char} (h : Blank cs) : ∀ c ∈ cs, c.isDigit = false := by
    intro c hc
    rw [Bool.eq_false_iff]
    intro hd
    exact absurd ((isBlank_of_isDigit hd).symm.trans (h c hc)) Bool.false_ne_true
  intro c hc
  simp only [tail, List.mem_append] at hc
  rcases hc with (hc | hc) | hc
  · exact blank g.blank_before c hc
  · exact ((unit_letters g.known).2 c hc).2
  · exact blank g.blank_behind c hc

theorem opens_text (g : Group) : ∀ c ∈ g.text.head?, c.isDigit = true := by
  obtain ⟨d, ds, hd⟩ := List.exists_cons_of_ne_nil g.number_ne_nil
  intro c hc
  rw [text, hd] at hc
  cases hc
  exact g.digits d (hd ▸ List.mem_cons_self)

end Group

/-! ## One group -/

/-- A number and what stands behind it are read exactly if they are a group that fits the limit. -/
theorem group_eq_ok_iff {number tail : List Char} (hd : Digits number) (hn : number ≠ []) {n : Nat} :
    group number tail = .ok n ↔
      ∃ g : Group, g.number = number ∧ g.tail = tail ∧ g.nanos = n ∧ n < limit := by
  unfold group
  rw [Numeral.parse_digits limit_pos hd hn]
  constructor
  · intro h
    by_cases hl : Nat.ofDigitChars 10 number 0 < limit
    · rw [if_pos hl] at h
      dsimp only at h
      split at h
      · exact nomatch h
      · split at h
        · exact nomatch h
        · next nanos hu =>
          split at h
          · next hlt =>
            cases h
            obtain ⟨a, b, ha, hb, ht⟩ := exists_blanks tail
            exact ⟨⟨number, a, (trim tail, nanos), b, hd, hn, lookup_units.1 hu, ha, hb⟩, rfl,
              ht.symm, rfl, hlt⟩
          · exact nomatch h
    · rw [if_neg hl] at h
      exact nomatch h
  · rintro ⟨g, rfl, rfl, rfl, hlt⟩
    have hl : Nat.ofDigitChars 10 g.number 0 < limit :=
      Nat.lt_of_le_of_lt (Nat.le_mul_of_pos_right _ (unit_pos g.known)) hlt
    have he : g.tail.isEmpty = false := List.isEmpty_eq_false_iff.2 g.tail_ne_nil
    rw [if_pos hl]
    dsimp only
    rw [he, if_neg Bool.false_ne_true, g.trim_tail, lookup_units.2 g.known]
    exact if_pos hlt

/-! ## Sequences of groups -/

theorem opens_texts (gs : List Group) : ∀ c ∈ (gs.flatMap Group.text).head?, c.isDigit = true := by
  cases gs with
  | nil => exact nofun
  | cons g gs =>
      have hn : g.text ≠ [] := fun h => g.number_ne_nil (List.append_eq_nil_iff.1 h).1
      obtain ⟨d, ds, hd⟩ := List.exists_cons_of_ne_nil hn
      have ho := g.opens_text
      intro c hc
      rw [List.flatMap_cons, hd] at hc
      rw [hd] at ho
      exact ho c hc

/-- A number is read with all that stands before the next digit. -/
theorem groups_cons {number tail rest : List Char} (hd : Digits number) (hn : number ≠ [])
    (ht : ∀ c ∈ tail, c.isDigit = false) (hr : ∀ c ∈ rest.head?, c.isDigit = true)
    (hs : ∀ c ∈ (tail ++ rest).head?, c.isDigit = false) (total : Nat) :
    groups total (number ++ (tail ++ rest)) =
      match group number tail with
      | .error f => .error f
      | .ok n => if total + n < limit then groups (total + n) rest else .error .overflow := by
  have hnumber : (number ++ (tail ++ rest)).takeWhile Numeral.isDigit = number :=
    takeWhile_front hd hs
  have hbehind : (number ++ (tail ++ rest)).dropWhile Numeral.isDigit = tail ++ rest :=
    dropWhile_front hd hs
  have hp : ∀ c ∈ tail, (!Numeral.isDigit c) = true := fun c hc => by
    rw [Numeral.isDigit_eq, ht c hc]
    rfl
  have hq : ∀ c ∈ rest.head?, (!Numeral.isDigit c) = false := fun c hc => by
    rw [Numeral.isDigit_eq, hr c hc]
    rfl
  have hempty : (number ++ (tail ++ rest)).isEmpty = false :=
    List.isEmpty_eq_false_iff.2 fun h => hn (List.append_eq_nil_iff.1 h).1
  have hnone : number.isEmpty = false := List.isEmpty_eq_false_iff.2 hn
  rw [groups, hempty, if_neg Bool.false_ne_true]
  cases hg : group number tail with
  | error f =>
      simp only [hnumber, hbehind, hnone, Bool.false_eq_true, dite_false, takeWhile_front hp hq, hg]
  | ok n =>
      simp only [hnumber, hbehind, hnone, Bool.false_eq_true, dite_false, takeWhile_front hp hq,
        dropWhile_front hp hq, hg]

/-- What is read as groups is a sequence of groups. -/
theorem exists_groups {cs : List Char} {total n : Nat} (h : groups total cs = .ok n)
    (ht : total < limit) : ∃ gs : List Group, gs.flatMap Group.text = cs ∧
      total + (gs.map Group.nanos).sum = n ∧ n < limit := by
  fun_induction groups total cs with
  | case1 total cs he =>
      cases h
      exact ⟨[], (List.isEmpty_iff.1 he).symm, rfl, ht⟩
  | case4 total cs _ number behind hn m hg hlt ih =>
      obtain ⟨gs, hgs, hsum, hlimit⟩ := ih h hlt
      have hd : Digits number := fun c hc => List.all_eq_true.1 List.all_takeWhile c hc
      have hne : number ≠ [] := fun he => hn (List.isEmpty_iff.2 he)
      obtain ⟨g, hnumber, htail, hnanos, -⟩ := (group_eq_ok_iff hd hne).1 hg
      refine ⟨g :: gs, ?_, ?_, hlimit⟩
      · rw [List.flatMap_cons, Group.text, hnumber, htail, hgs, List.append_assoc,
          List.takeWhile_append_dropWhile]
        exact List.takeWhile_append_dropWhile
      · rw [List.map_cons, List.sum_cons, hnanos, ← Nat.add_assoc]
        exact hsum
  | case2 => exact nomatch h
  | case3 => exact nomatch h
  | case5 => exact nomatch h

/-- A text is read as groups exactly if it is a sequence of them whose sum stays below the limit. -/
theorem groups_eq_ok_iff {cs : List Char} {total n : Nat} (ht : total < limit) :
    groups total cs = .ok n ↔ ∃ gs : List Group, gs.flatMap Group.text = cs ∧
      total + (gs.map Group.nanos).sum = n ∧ n < limit := by
  refine ⟨fun h => exists_groups h ht, ?_⟩
  rintro ⟨gs, rfl, rfl, hlt⟩
  induction gs generalizing total with
  | nil => rw [List.flatMap_nil, groups, List.isEmpty_nil, if_pos rfl]; rfl
  | cons g gs ih =>
      rw [List.map_cons, List.sum_cons, ← Nat.add_assoc] at hlt ⊢
      have hlater : total + g.nanos < limit := Nat.lt_of_le_of_lt (Nat.le_add_right _ _) hlt
      have hg : group g.number g.tail = .ok g.nanos :=
        (group_eq_ok_iff g.digits g.number_ne_nil).2 ⟨g, rfl, rfl, rfl, by omega⟩
      have hstop : ∀ c ∈ (g.tail ++ gs.flatMap Group.text).head?, c.isDigit = false := by
        obtain ⟨d, ds, hd⟩ := List.exists_cons_of_ne_nil g.tail_ne_nil
        intro c hc
        rw [hd] at hc
        cases hc
        exact g.not_digit_of_mem_tail d (hd ▸ List.mem_cons_self)
      rw [List.flatMap_cons, Group.text, List.append_assoc,
        groups_cons g.digits g.number_ne_nil g.not_digit_of_mem_tail (opens_texts gs) hstop, hg]
      dsimp only
      rw [if_pos hlater]
      exact ih hlater hlt

/-! ## Whole texts -/

theorem Spells.not_digits {cs : List Char} {n : Nat} (h : Spells cs n) : ¬ Digits cs := by
  obtain ⟨gs, hn, rfl, -⟩ := h
  obtain ⟨g, gs, rfl⟩ := List.exists_cons_of_ne_nil hn
  obtain ⟨c, rest, hc⟩ := List.exists_cons_of_ne_nil g.tail_ne_nil
  have hm : c ∈ g.tail := hc ▸ List.mem_cons_self
  intro hd
  have ht : c ∈ (g :: gs).flatMap Group.text :=
    List.mem_flatMap.2 ⟨g, List.mem_cons_self, List.mem_append_right _ hm⟩
  exact Bool.false_ne_true ((g.not_digit_of_mem_tail c hm).symm.trans (hd c ht))

theorem parse_eq_ok_iff {cs : List Char} {n : Nat} :
    parse cs = .ok n ↔ trim cs = ['0'] ∧ n = 0 ∨ Spells (trim cs) n ∧ n < limit := by
  unfold parse
  dsimp only
  by_cases he : trim cs = []
  · have hs : ¬ Spells (trim cs) n := fun h => h.not_digits (he ▸ nofun)
    rw [he, List.isEmpty_nil, if_pos rfl] at *
    exact ⟨nofun, fun h => h.elim (fun h => nomatch h.1) fun h => absurd h.1 hs⟩
  · rw [List.isEmpty_eq_false_iff.2 he, if_neg Bool.false_ne_true]
    by_cases hz : trim cs = ['0']
    · have hs : ¬ Spells (trim cs) n := fun h => h.not_digits (hz ▸ digits_zero)
      rw [if_pos hz]
      refine ⟨fun h => .inl ⟨hz, (Except.ok.inj h).symm⟩, fun h => ?_⟩
      rcases h with ⟨-, rfl⟩ | ⟨h, -⟩
      · rfl
      · exact absurd h hs
    · rw [if_neg hz, groups_eq_ok_iff limit_pos]
      constructor
      · rintro ⟨gs, hgs, hsum, hlt⟩
        rw [Nat.zero_add] at hsum
        refine .inr ⟨⟨gs, ?_, hgs, hsum⟩, hlt⟩
        rintro rfl
        exact he hgs.symm
      · rintro (⟨h, -⟩ | ⟨⟨gs, -, hgs, hsum⟩, hlt⟩)
        · exact absurd h hz
        · exact ⟨gs, hgs, (Nat.zero_add _).trans hsum, hlt⟩

theorem trim_digits {cs : List Char} (h : Digits cs) : trim cs = cs :=
  trim_self (tight_of_forall fun c hc => isBlank_of_isDigit (h c hc))

/-- Bare digits lack a unit, unless they are a zero alone. -/
theorem parse_digits {cs : List Char} (h : Digits cs) (hn : cs ≠ []) (hz : cs ≠ ['0'])
    (hl : Nat.ofDigitChars 10 cs 0 < limit) : parse cs = .error .missingUnit := by
  have hg : group cs [] = .error .missingUnit := by
    unfold group
    rw [Numeral.parse_digits limit_pos h hn, if_pos hl]
    rfl
  have hs := @groups_cons cs [] [] h hn nofun nofun nofun 0
  rw [List.append_nil, List.append_nil, hg] at hs
  unfold parse
  dsimp only
  rw [trim_digits h, List.isEmpty_eq_false_iff.2 hn, if_neg Bool.false_ne_true, if_neg hz]
  exact hs

/-- A sign is no number. -/
theorem parse_plus {ds : List Char} (h : Digits ds) : parse ('+' :: ds) = .error .missingValue := by
  have ht : trim ('+' :: ds) = '+' :: ds := by
    refine trim_self (tight_of_forall fun c hc => ?_)
    rcases List.mem_cons.1 hc with rfl | hc
    · decide
    · exact isBlank_of_isDigit (h c hc)
  have hz : '+' :: ds ≠ ['0'] := fun he => absurd (List.cons.inj he).1 (by decide)
  unfold parse
  dsimp only
  rw [ht, List.isEmpty_cons, if_neg Bool.false_ne_true, if_neg hz, groups]
  rfl

theorem nanos_clamp_of_lt {n : Nat} (h : n < limit) : (Duration.clamp n).nanos = n := by
  have hl : limit ≤ 2 ^ 64 * 10 ^ 9 := by decide
  rw [Duration.nanos_clamp]
  omega

theorem nanos_ofSeconds {n : Nat} (h : n < limit) : (Duration.ofSeconds n).nanos = n * 10 ^ 9 := by
  have hl : limit = 2 ^ 64 := rfl
  show (Duration.clamp (n * 10 ^ 9)).nanos = _
  rw [Duration.nanos_clamp]
  omega

/-- The meaning of a text: no time at all, the sum of its groups, or a number of seconds. -/
def Means (s : String) (d : Duration) : Prop :=
  trim s.toList = ['0'] ∧ d.nanos = 0 ∨
    Spells (trim s.toList) d.nanos ∧ d.nanos < 2 ^ 64 ∨
    s.toList ≠ [] ∧ Digits s.toList ∧ Nat.ofDigitChars 10 s.toList 0 < 2 ^ 64 ∧
      d.nanos = Nat.ofDigitChars 10 s.toList 0 * 10 ^ 9

/-- Where a unit is missing, only bare digits are seconds: a sign would have been noticed before. -/
theorem digits_of_missingUnit {cs : List Char} {n : Nat} (hp : parse cs = .error .missingUnit)
    (hn : Numeral.parse limit cs = .ok n) :
    cs ≠ [] ∧ Digits cs ∧ Nat.ofDigitChars 10 cs 0 = n ∧ n < limit := by
  obtain ⟨⟨ds, hcs, hne, hd, hv⟩, hlt⟩ := (Numeral.parse_eq_ok_iff limit_pos).1 hn
  rcases hcs with rfl | rfl
  · exact ⟨hne, hd, hv, hlt⟩
  · rw [parse_plus hd] at hp
    exact nomatch hp

theorem means_of_ofText {s : String} {d : Duration} (h : ofText s = .ok d) : Means s d := by
  unfold ofText at h
  split at h
  · next n hp =>
    cases h
    rcases parse_eq_ok_iff.1 hp with ⟨ht, rfl⟩ | ⟨hs, hlt⟩
    · exact .inl ⟨ht, nanos_clamp_of_lt limit_pos⟩
    · rw [← nanos_clamp_of_lt hlt] at hs hlt
      exact .inr (.inl ⟨hs, hlt⟩)
  · next hp =>
    split at h
    · next n hn =>
      cases h
      obtain ⟨hne, hd, rfl, hlt⟩ := digits_of_missingUnit hp hn
      exact .inr (.inr ⟨hne, hd, hlt, nanos_ofSeconds hlt⟩)
    · exact nomatch h
  · exact nomatch h

theorem ofText_of_means {s : String} {d : Duration} (h : Means s d) : ofText s = .ok d := by
  have ok (hp : parse s.toList = .ok d.nanos) (hlt : d.nanos < limit) : ofText s = .ok d := by
    unfold ofText
    rw [hp]
    exact congrArg Except.ok (Duration.ext_nanos (nanos_clamp_of_lt hlt))
  rcases h with ⟨ht, hz⟩ | ⟨hs, hlt⟩ | ⟨hne, hd, hlt, hv⟩
  · refine ok (parse_eq_ok_iff.2 (.inl ⟨ht, hz⟩)) ?_
    rw [hz]
    exact limit_pos
  · exact ok (parse_eq_ok_iff.2 (.inr ⟨hs, hlt⟩)) hlt
  · by_cases hz : s.toList = ['0']
    · -- A zero alone is read without its unit, as no time at all; so it is as a number of seconds.
      rw [hz] at hv
      have hn : d.nanos = 0 := hv
      refine ok (parse_eq_ok_iff.2 (.inl ⟨(trim_digits hd).trans hz, hn⟩)) ?_
      rw [hn]
      exact limit_pos
    · unfold ofText
      rw [parse_digits hd hne hz hlt]
      dsimp only
      have hl : Nat.ofDigitChars 10 s.toList 0 < limit := hlt
      rw [Numeral.parse_digits limit_pos hd hne, if_pos hl]
      exact congrArg Except.ok (Duration.ext_nanos ((nanos_ofSeconds hlt).trans hv.symm))

theorem ofText_eq_ok_iff {s : String} {d : Duration} : ofText s = .ok d ↔ Means s d :=
  ⟨means_of_ofText, ofText_of_means⟩

end Interval

namespace Settings

open Decimal Telemetry.Interval Text

theorem readSpan_text_eq_ok_iff {s : String} {d : Duration} :
    readSpan (.text s) = .ok d ↔ Means s d := by
  rw [← ofText_eq_ok_iff]
  exact Except.mapError_eq_ok_iff

/-- Integers are sizes and numbers of seconds as far as they are natural numbers. -/
theorem natural_eq_ok_iff {α : Type} (f : Nat → α) {fault : EntryFault} {i : Int} {x : α} :
    (if i < 0 then .error fault else .ok (f i.toNat) : Except EntryFault α) = .ok x ↔
      ∃ n : Nat, i = n ∧ x = f n := by
  constructor
  · intro h
    by_cases hi : i < 0
    · rw [if_pos hi] at h
      exact nomatch h
    · rw [if_neg hi] at h
      exact ⟨i.toNat, (Int.toNat_of_nonneg (Int.not_lt.1 hi)).symm, (Except.ok.inj h).symm⟩
  · rintro ⟨n, rfl, rfl⟩
    rw [if_neg (Int.not_lt.2 (Int.natCast_nonneg n))]
    rfl

theorem readSpan_integer_eq_ok_iff {i : Int} {d : Duration} :
    readSpan (.integer i) = .ok d ↔ ∃ n : Nat, i = n ∧ d = .ofSeconds n :=
  natural_eq_ok_iff Duration.ofSeconds

/-- A number of seconds without its unit. -/
theorem means_toString {n : Nat} (h : n < limit) : Means (toString n) (.ofSeconds n) := by
  have hl : (toString n).toList = Nat.toDigits 10 n := Nat.toList_repr
  refine .inr (.inr ?_)
  rw [hl, Nat.ofDigitChars_ten_toDigits]
  exact ⟨Nat.toDigits_ne_nil, digits_toDigits n, h, nanos_ofSeconds h⟩

/-- A number of seconds with its unit. -/
theorem means_toString_unit {n : Nat} (h : n * 10 ^ 9 < limit) :
    Means (toString n ++ "s") (.ofSeconds n) := by
  have hd := digits_toDigits n
  have hl : (toString n ++ "s").toList = Nat.toDigits 10 n ++ ['s'] := by
    rw [String.toList_append]
    exact congrArg (· ++ ['s']) Nat.toList_repr
  have ht : trim (Nat.toDigits 10 n ++ ['s']) = Nat.toDigits 10 n ++ ['s'] := by
    refine trim_self (tight_of_forall fun c hc => ?_)
    rcases List.mem_append.1 hc with hc | hc
    · exact isBlank_of_isDigit (hd c hc)
    · rw [List.mem_singleton.1 hc]
      decide
  have hn : (Duration.ofSeconds n).nanos = n * 10 ^ 9 := nanos_ofSeconds (by omega)
  let g : Group := ⟨Nat.toDigits 10 n, [], (['s'], 10 ^ 9), [], hd, Nat.toDigits_ne_nil, by decide,
    nofun, nofun⟩
  refine .inr (.inl ⟨⟨[g], List.cons_ne_nil g [], ?_, ?_⟩, hn ▸ h⟩)
  · rw [hl, ht, List.flatMap_singleton]
    rfl
  · rw [List.map_singleton, List.sum_singleton, hn]
    show Nat.ofDigitChars 10 (Nat.toDigits 10 n) 0 * 10 ^ 9 = _
    rw [Nat.ofDigitChars_ten_toDigits]

end Settings
end Telemetry
