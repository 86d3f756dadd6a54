import Telemetry.Proofs.Json.Reader
import Telemetry.Proofs.Number.Reading
/-!
Texts of finite numbers are numbers of JSON.

A number of JSON has digits on both sides of its point, if it has one, and digits in its exponent,
if it has one; and no zero stands in front of its other digits.
-/

namespace Telemetry
namespace Decimal

/-! ## Leading digits -/

theorem toDigits_leading {n : Nat} (h : n ≠ 0) : ∃ c cs, Nat.toDigits 10 n = c :: cs ∧ c ≠ '0' := by
  induction n using Nat.strongRecOn with
  | ind n ih =>
    by_cases hs : n < 10
    · refine ⟨n.digitChar, [], Nat.toDigits_of_lt_base hs, ?_⟩
      rw [ne_eq, Nat.digitChar_eq_zero]
      exact h
    · obtain ⟨c, cs, hd, hc⟩ := ih (n / 10) (by omega) (by omega)
      refine ⟨c, cs ++ [(n % 10).digitChar], ?_, hc⟩
      rw [Nat.toDigits_of_base_le (by decide) (by omega), hd]
      rfl

/-- Zero has one form without trailing zeros. -/
theorem scale_strip {d : Decimal} (h : d.strip.digits = 0) : d.strip.scale = 0 := by
  unfold strip at h ⊢
  dsimp only at h ⊢
  by_cases hz : d.digits = 0
  · rw [if_pos hz]
  · have hd := pow_trailing_dvd (Nat.toDigits 10 d.digits)
    rw [Nat.ofDigitChars_ten_toDigits] at hd
    rw [if_neg hz] at h
    have hle := Nat.le_of_dvd (Nat.pos_of_ne_zero hz) hd
    have hpos := Nat.div_pos hle (Nat.pow_pos (by decide))
    exact absurd h (Nat.ne_of_gt hpos)

/-- Digits of a whole number: a zero by itself, or no zero in front. -/
def Whole (a : List Char) : Prop := Digits a ∧ (a = ['0'] ∨ ∃ c cs, a = c :: cs ∧ c ≠ '0')

theorem whole_digit {d : Char} (h : d.isDigit = true) : Whole [d] := by
  refine ⟨fun c hc => List.mem_singleton.1 hc ▸ h, ?_⟩
  by_cases hz : d = '0'
  · exact .inl (hz ▸ rfl)
  · exact .inr ⟨d, [], rfl, hz⟩

/-- Plain notation is a whole number, a point and digits, if a zero stands at the point. -/
theorem whole_plainText {n : Nat} {e : Int} (hz : n = 0 → e = 0) :
    ∃ a b, (plainText (Nat.toDigits 10 n) e).toList = a ++ '.' :: b ∧ Whole a ∧ Digits b ∧ b ≠ [] := by
  have hd := digits_toDigits n
  have hn : Nat.toDigits 10 n ≠ [] := Nat.toDigits_ne_nil
  unfold plainText
  by_cases hneg : e < 0
  · rw [if_pos hneg]
    exact ⟨['0'], List.replicate (-e - 1).toNat '0' ++ Nat.toDigits 10 n, by simp [zeros],
      ⟨digits_zero, .inl rfl⟩, (digits_zeros _).append hd, by simp [hn]⟩
  · rw [if_neg hneg]
    dsimp only
    by_cases h0 : n = 0
    · rw [h0, hz h0]
      exact ⟨['0'], ['0'], by decide, ⟨digits_zero, .inl rfl⟩, digits_zero, by decide⟩
    · obtain ⟨c, cs, hcs, hc⟩ := toDigits_leading h0
      rw [hcs] at hd ⊢
      by_cases hl : (c :: cs).length ≤ e.toNat + 1
      · rw [if_pos hl]
        exact ⟨c :: cs ++ List.replicate (e.toNat + 1 - (c :: cs).length) '0', ['0'], by simp [zeros],
          ⟨hd.append (digits_zeros _), .inr ⟨c, _, rfl, hc⟩⟩, digits_zero, by decide⟩
      · rw [if_neg hl]
        refine ⟨(c :: cs).take (e.toNat + 1), (c :: cs).drop (e.toNat + 1), by simp,
          ⟨fun d hm => hd d (List.mem_of_mem_take hm), .inr ⟨c, cs.take e.toNat, rfl, hc⟩⟩,
          fun d hm => hd d (List.mem_of_mem_drop hm), ?_⟩
        rw [ne_eq, List.drop_eq_nil_iff]
        omega

end Decimal

namespace Json

open Decimal

/-! ## Recognizing the parts of a number -/

/-- The digits at the front are at an end. -/
def Ends (rest : List Char) : Prop := ∀ c cs, rest = c :: cs → c.isDigit = false

theorem ends_nil : Ends [] := fun _ _ h => nomatch h

theorem ends_cons {c : Char} (h : c.isDigit = false) (rest : List Char) : Ends (c :: rest) := by
  intro d ds he
  cases he
  exact h

theorem behindDigits?_append {a rest : List Char} (h : Digits a) (hn : a ≠ []) (hr : Ends rest) :
    behindDigits? (a ++ rest) = some rest := by
  have hb : ∀ c ∈ rest.head?, c.isDigit = false := by
    intro c hc
    obtain ⟨cs, rfl⟩ := List.head?_eq_some_iff.1 hc
    exact hr c cs rfl
  rw [behindDigits?, Text.takeWhile_front h hb, Text.dropWhile_front h hb, if_neg]
  exact fun he => hn (List.isEmpty_iff.1 he)

theorem behindDigits?_self {a : List Char} (h : Digits a) (hn : a ≠ []) :
    behindDigits? a = some [] := by
  have ha := behindDigits?_append h hn ends_nil
  rwa [List.append_nil] at ha

theorem behindWhole?_append {a rest : List Char} (h : Whole a) (hr : Ends rest) :
    behindWhole? (a ++ rest) = some rest := by
  obtain ⟨hd, rfl | ⟨c, cs, rfl, hc⟩⟩ := h
  · rfl
  · have ha := behindDigits?_append hd (List.cons_ne_nil c cs) hr
    unfold behindWhole?
    split
    · next he =>
      cases he
      exact absurd rfl hc
    · exact ha

/-- A sign in front does not count. -/
theorem behindDigits?_unsigned {a : List Char} (h : Digits a) (hn : a ≠ []) :
    behindDigits? (unsigned a) = some [] := by
  unfold unsigned
  split
  · exact absurd (h '-' List.mem_cons_self) (by decide)
  · exact absurd (h '+' List.mem_cons_self) (by decide)
  · exact behindDigits?_self h hn

theorem behindExponent?_exponentText (layout : Layout) (e : Int) :
    behindExponent? ('e' :: (exponentText layout e).toList) = some [] := by
  have hd := digits_toDigits e.natAbs
  have hn : Nat.toDigits 10 e.natAbs ≠ [] := Nat.toDigits_ne_nil
  show behindDigits? (unsigned (exponentText layout e).toList) = some []
  unfold exponentText
  split
  · rw [String.toList_append, toList_wholeText]
    exact behindDigits?_self hd hn
  · split
    · rw [String.toList_append, toList_wholeText]
      exact behindDigits?_self hd hn
    · rw [toList_wholeText]
      exact behindDigits?_unsigned hd hn

theorem magnitude_opens {cs : List Char} (h : Opens cs) : magnitude cs = cs := by
  obtain ⟨c, rest, rfl, hc⟩ := h
  unfold magnitude
  split
  · next he =>
    cases he
    exact absurd hc (by decide)
  · rfl

/-! ## The texts -/

/-- What an unsigned text of a number leads to, part by part. -/
def Recognized (cs : List Char) : Prop :=
  ((behindWhole? cs).bind behindFraction?).bind behindExponent? = some []

theorem recognized_point {a b : List Char} (ha : Whole a) (hb : Digits b) (hn : b ≠ []) :
    Recognized (a ++ '.' :: b) := by
  unfold Recognized
  rw [behindWhole?_append ha (ends_cons (by decide) b), Option.bind_some, behindFraction?,
    behindDigits?_self hb hn]
  rfl

theorem recognized_scaled {ds : List Char} (h : Digits ds) (hn : ds ≠ []) (layout : Layout) (e : Int) :
    Recognized ((significandText ds).toList ++ 'e' :: (exponentText layout e).toList) := by
  have he := behindExponent?_exponentText layout e
  have hends : Ends ('e' :: (exponentText layout e).toList) := ends_cons (by decide) _
  obtain ⟨d, ds, rfl⟩ := List.exists_cons_of_ne_nil hn
  have hd := whole_digit (h d List.mem_cons_self)
  unfold Recognized
  by_cases hs : ds = []
  · subst hs
    rw [significandText, String.toList_ofList, behindWhole?_append hd hends]
    exact he
  · have hds : Digits ds := fun c hc => h c (List.mem_cons_of_mem d hc)
    have hl : ([d] ++ '.' :: ds) ++ 'e' :: (exponentText layout e).toList =
        [d] ++ '.' :: (ds ++ 'e' :: (exponentText layout e).toList) := by simp
    rw [toList_significandText d hs, hl, behindWhole?_append hd (ends_cons (by decide) _),
      Option.bind_some, behindFraction?, behindDigits?_append hds hs hends]
    exact he

theorem recognized_text (layout : Layout) {d : Decimal} (hz : d.digits = 0 → d.scale = 0) :
    Recognized (Decimal.text layout d).toList := by
  unfold Decimal.text
  dsimp only
  split
  · have he : d.digits = 0 → d.scale + (Nat.toDigits 10 d.digits).length - 1 = 0 := by
      intro h
      rw [hz h, h]
      rfl
    obtain ⟨a, b, hl, ha, hb, hn⟩ := whole_plainText he
    rw [hl]
    exact recognized_point ha hb hn
  · have hl : ∀ s t : String, (s ++ "e" ++ t).toList = s.toList ++ 'e' :: t.toList := by
      intro s t
      simp
    rw [hl]
    exact recognized_scaled (digits_toDigits d.digits) Nat.toDigits_ne_nil layout _

theorem isNumber_finiteText (layout : Layout) (x : Binary64) :
    isNumber (finiteText layout x).toList = true := by
  have ho := opens_text layout (shortest x)
  have ht : Recognized (Decimal.text layout (shortest x)).toList :=
    recognized_text layout fun h => scale_strip h
  have hm : magnitude (finiteText layout x).toList = (Decimal.text layout (shortest x)).toList := by
    unfold finiteText
    by_cases hx : x.negative = true
    · rw [if_pos hx, String.toList_append]
      rfl
    · rw [if_neg hx, String.empty_append, magnitude_opens ho]
  unfold isNumber
  rw [hm, ht]
  rfl

end Json
end Telemetry
