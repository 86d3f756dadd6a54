import Telemetry.Proofs.Number.Reading
import Telemetry.Text.Numeral
/-!
Numerals and the numbers that they denote.

A numeral is read exactly if it is digits, with a plus sign in front or without, and its number fits
the width; so of two texts for one number it makes no difference which of them is read.
-/

namespace Telemetry
namespace Numeral

open Decimal

/-- Digits, with a plus sign in front or without, and their number. -/
def Denotes (cs : List Char) (n : Nat) : Prop :=
  ∃ ds, (cs = ds ∨ cs = '+' :: ds) ∧ ds ≠ [] ∧ Digits ds ∧ Nat.ofDigitChars 10 ds 0 = n

theorem isDigit_eq (c : Char) : isDigit c = c.isDigit := rfl

theorem denotes_toDigits (n : Nat) : Denotes (Nat.toDigits 10 n) n :=
  ⟨_, .inl rfl, Nat.toDigits_ne_nil, digits_toDigits n, Nat.ofDigitChars_ten_toDigits⟩

theorem Denotes.ne_nil {cs : List Char} {n : Nat} (h : Denotes cs n) : cs ≠ [] := by
  obtain ⟨ds, rfl | rfl, hn, -⟩ := h
  · exact hn
  · exact List.cons_ne_nil '+' ds

theorem Denotes.plus_or_digit {cs : List Char} {n : Nat} (h : Denotes cs n) :
    ∀ c ∈ cs, c = '+' ∨ c.isDigit = true := by
  obtain ⟨ds, hcs, -, hd, -⟩ := h
  have hds : ∀ c ∈ ds, c = '+' ∨ c.isDigit = true := fun c hc => .inr (hd c hc)
  rcases hcs with rfl | rfl
  · exact hds
  · exact List.forall_mem_cons.2 ⟨.inl rfl, hds⟩

theorem Denotes.not_blank {cs : List Char} {n : Nat} (h : Denotes cs n) :
    ∀ c ∈ cs, Text.isBlank c = false := by
  intro c hc
  rcases h.plus_or_digit c hc with rfl | hd
  · decide
  · exact Text.isBlank_of_isDigit hd

/-- More digits never make a number smaller. -/
theorem le_ofDigitChars (n : Nat) (cs : List Char) : n ≤ Nat.ofDigitChars 10 cs n := by
  induction cs generalizing n with
  | nil => exact Nat.le_refl n
  | cons c cs ih =>
      have h := ih (10 * n + (c.toNat - '0'.toNat))
      rw [Nat.ofDigitChars_cons]
      omega

/-- Digits are read to their number, or it does not fit. -/
theorem readDigits_digits {limit n : Nat} {cs : List Char} (hn : n < limit) (h : Digits cs) :
    readDigits limit n cs =
      if Nat.ofDigitChars 10 cs n < limit then .ok (Nat.ofDigitChars 10 cs n)
      else .error .tooLarge := by
  induction cs generalizing n with
  | nil => exact (if_pos hn).symm
  | cons c cs ih =>
      have hc : isDigit c = true := h c List.mem_cons_self
      have hcs : Digits cs := fun d hd => h d (List.mem_cons_of_mem c hd)
      have hv : n * 10 + digitValue c = 10 * n + (c.toNat - '0'.toNat) := by
        rw [Nat.mul_comm]
        rfl
      rw [readDigits, if_pos hc, hv, Nat.ofDigitChars_cons]
      by_cases hl : 10 * n + (c.toNat - '0'.toNat) < limit
      · rw [if_pos hl, ih hl hcs]
      · have hle := le_ofDigitChars (10 * n + (c.toNat - '0'.toNat)) cs
        rw [if_neg hl, if_neg (by omega)]

theorem digits_of_readDigits {limit n m : Nat} {cs : List Char}
    (h : readDigits limit n cs = .ok m) : Digits cs := by
  induction cs generalizing n with
  | nil => exact fun c hc => absurd hc List.not_mem_nil
  | cons c cs ih =>
      simp only [readDigits] at h
      split at h
      · next hc =>
        split at h
        · intro d hd
          rcases List.mem_cons.1 hd with rfl | hd
          · exact hc
          · exact ih h d hd
        · cases h
      · cases h

theorem parse_digits {limit : Nat} {cs : List Char} (hl : 0 < limit) (h : Digits cs)
    (hn : cs ≠ []) :
    parse limit cs =
      if Nat.ofDigitChars 10 cs 0 < limit then .ok (Nat.ofDigitChars 10 cs 0)
      else .error .tooLarge := by
  rw [← readDigits_digits hl h]
  obtain ⟨c, rest, rfl⟩ := List.exists_cons_of_ne_nil hn
  unfold parse
  split
  · next he => exact nomatch he
  · next he =>
    cases he
    exact absurd (h '+' List.mem_cons_self) (by decide)
  · rfl

theorem parse_plus {limit : Nat} {cs : List Char} (hn : cs ≠ []) :
    parse limit ('+' :: cs) = readDigits limit 0 cs := by
  obtain ⟨c, rest, rfl⟩ := List.exists_cons_of_ne_nil hn
  rfl

/-- What stands in a text that is read. -/
theorem denotes_of_parse {limit n : Nat} {cs : List Char} (hl : 0 < limit)
    (h : parse limit cs = .ok n) : Denotes cs n := by
  have number {ds : List Char} (hr : readDigits limit 0 ds = .ok n) :
      Digits ds ∧ Nat.ofDigitChars 10 ds 0 = n := by
    have hd := digits_of_readDigits hr
    refine ⟨hd, ?_⟩
    rw [readDigits_digits hl hd] at hr
    split at hr
    · exact Except.ok.inj hr
    · exact nomatch hr
  unfold parse at h
  split at h
  · exact nomatch h
  · next c cs => exact ⟨c :: cs, .inr rfl, List.cons_ne_nil c cs, number h⟩
  · next hne _ => exact ⟨cs, .inl rfl, hne, number h⟩

/-- A text is read as a number exactly if it is a numeral for it that fits the width. -/
theorem parse_eq_ok_iff {limit n : Nat} {cs : List Char} (hl : 0 < limit) :
    parse limit cs = .ok n ↔ Denotes cs n ∧ n < limit := by
  constructor
  · intro h
    exact ⟨denotes_of_parse hl h, parse_lt hl h⟩
  · rintro ⟨⟨ds, rfl | rfl, hn, hd, rfl⟩, hlt⟩
    · rw [parse_digits hl hd hn, if_pos hlt]
    · rw [parse_plus hn, readDigits_digits hl hd, if_pos hlt]

end Numeral
end Telemetry
