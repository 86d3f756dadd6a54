import Telemetry.Decimal.Layout
import Telemetry.Proofs.Number.Rounding
import Telemetry.Proofs.Text.Cutting
/-!
Reading the texts of numbers.

A reader takes the digits on both sides of the point for one whole number and lowers the exponent by
the digits behind the point. What it reads in the text of a decimal is that decimal, except that
plain notation puts zeros behind a whole number, which changes the digits but not the number. The
shortest decimal of a binary number rounds to its magnitude, so the text determines the number.
-/

namespace Telemetry
namespace Decimal

theorem denominator_pos (d : Decimal) : 0 < d.denominator := Nat.pow_pos (by decide)

theorem toBinary64_congr {c d : Decimal}
    (h : c.numerator * d.denominator = d.numerator * c.denominator) :
    c.toBinary64 = d.toBinary64 := by
  have hr : Binary64.rankOfUnits (c.numerator * Binary64.one) c.denominator =
      Binary64.rankOfUnits (d.numerator * Binary64.one) d.denominator := by
    apply Binary64.rankOfUnits_congr c.denominator_pos d.denominator_pos
    rw [Nat.mul_right_comm, h, Nat.mul_right_comm]
  unfold toBinary64 Binary64.ofRatio
  simp only [hr]

/-- Zeros behind the digits raise the scale. -/
theorem toBinary64_shift (n k : Nat) (s : Int) :
    toBinary64 ⟨n * 10 ^ k, s⟩ = toBinary64 ⟨n, s + k⟩ := by
  apply toBinary64_congr
  show n * 10 ^ k * 10 ^ s.toNat * 10 ^ (-(s + k)).toNat =
    n * 10 ^ (s + k).toNat * 10 ^ (-s).toNat
  have he : k + s.toNat + (-(s + k)).toNat = (s + k).toNat + (-s).toNat := by omega
  rw [Nat.mul_assoc n, ← Nat.pow_add, Nat.mul_assoc n, ← Nat.pow_add, he, Nat.pow_add,
    Nat.mul_assoc n]

/-! ## The shortest decimal -/

theorem pow_trailing_dvd (ds : List Char) :
    10 ^ (ds.reverse.takeWhile (· == '0')).length ∣ Nat.ofDigitChars 10 ds 0 := by
  have hz : ds.reverse.takeWhile (· == '0') =
      List.replicate (ds.reverse.takeWhile (· == '0')).length '0' := by
    apply List.eq_replicate_of_mem
    intro c hc
    exact eq_of_beq (List.all_eq_true.1 List.all_takeWhile c hc)
  generalize (ds.reverse.takeWhile (· == '0')).length = k at hz
  have hd : ds = (ds.reverse.dropWhile (· == '0')).reverse ++ List.replicate k '0' := by
    have ha := List.takeWhile_append_dropWhile (p := (· == '0')) (l := ds.reverse)
    rw [hz] at ha
    have hr := congrArg List.reverse ha
    rwa [List.reverse_append, List.reverse_replicate, List.reverse_reverse, eq_comm] at hr
  rw [hd, Nat.ofDigitChars_append, Nat.ofDigitChars_replicate_zero]
  exact Nat.dvd_mul_right _ _

theorem toBinary64_strip (d : Decimal) : d.strip.toBinary64 = d.toBinary64 := by
  unfold strip
  dsimp only
  split
  · next h =>
    apply toBinary64_congr
    simp [numerator, h]
  · have hd := pow_trailing_dvd (Nat.toDigits 10 d.digits)
    rw [Nat.ofDigitChars_ten_toDigits] at hd
    rw [← toBinary64_shift, Nat.div_mul_cancel hd]

theorem rankOfUnits_exact (u e : Nat) :
    Binary64.rankOfUnits (numerator ⟨u * 5 ^ e, -e⟩ * 2 ^ e) (denominator ⟨u * 5 ^ e, -e⟩) =
      Binary64.rankOfUnits u 1 := by
  have h := Binary64.rankOfUnits_scale u 1 (c := 10 ^ e) (Nat.pow_pos (by decide))
  have hp : u * 5 ^ e * 2 ^ e = u * 10 ^ e := by rw [Nat.mul_assoc, ← Nat.mul_pow]
  rw [Nat.one_mul] at h
  simpa [numerator, denominator, hp] using h

theorem toBinary64_exact {x : Binary64} (h : x.isFinite = true) :
    (exact x.units).toBinary64 = x.abs := by
  have hr : Binary64.rankOfUnits ((exact x.units).numerator * Binary64.one)
      (exact x.units).denominator = x.rank :=
    (rankOfUnits_exact x.units 1074).trans (Binary64.rank_of_units h)
  unfold toBinary64 Binary64.ofRatio Binary64.abs
  simp only [hr]

/-- The shortest decimal of a finite number rounds to the number's magnitude. -/
theorem toBinary64_shortest {x : Binary64} (h : x.isFinite = true) :
    (shortest x).toBinary64 = x.abs := by
  unfold shortest
  rw [toBinary64_strip]
  cases hf : (List.range 17).findSome? (ofLength? x) with
  | none =>
    rw [Option.getD_none]
    exact toBinary64_exact h
  | some d =>
    rw [Option.getD_some]
    obtain ⟨n, -, hn⟩ := List.exists_of_findSome?_eq_some hf
    unfold ofLength? at hn
    have hd := List.find?_some hn
    exact of_decide_eq_true hd

/-! ## The reader -/

def Digits (cs : List Char) : Prop := ∀ c ∈ cs, c.isDigit = true

theorem Digits.not_mem {cs : List Char} {c : Char} (h : Digits cs) (hc : c.isDigit = false) :
    c ∉ cs :=
  Text.not_mem_of_all (List.all_eq_true.2 h) hc

theorem Digits.append {a b : List Char} (ha : Digits a) (hb : Digits b) : Digits (a ++ b) := by
  intro c hc
  rcases List.mem_append.1 hc with hc | hc
  · exact ha c hc
  · exact hb c hc

theorem digits_toDigits (n : Nat) : Digits (Nat.toDigits 10 n) :=
  fun _ hc => Nat.isDigit_of_mem_toDigits (by decide) (by decide) hc

theorem toList_wholeText (n : Nat) : (wholeText n).toList = Nat.toDigits 10 n :=
  String.toList_ofList

theorem digits_zeros (n : Nat) : Digits (List.replicate n '0') := by
  intro c hc
  rw [List.eq_of_mem_replicate hc]
  rfl

theorem digits_zero : Digits ['0'] := digits_zeros 1

/-- A whole number, with a sign or without. -/
def readExponent : List Char → Int
  | '-' :: cs => -Nat.ofDigitChars 10 cs 0
  | '+' :: cs => Nat.ofDigitChars 10 cs 0
  | cs => Nat.ofDigitChars 10 cs 0

/-- Digits, with a point among them or without. -/
def readSignificand (cs : List Char) : Decimal :=
  let (whole, fraction) := Text.around '.' cs
  ⟨Nat.ofDigitChars 10 (whole ++ fraction) 0, -fraction.length⟩

def read (cs : List Char) : Decimal :=
  let (significand, exponent) := Text.around 'e' cs
  let d := readSignificand significand
  ⟨d.digits, d.scale + readExponent exponent⟩

theorem readExponent_digits {cs : List Char} (h : Digits cs) :
    readExponent cs = Nat.ofDigitChars 10 cs 0 := by
  unfold readExponent
  split
  · exact absurd List.mem_cons_self (h.not_mem (by decide))
  · rfl
  · rfl

theorem readSignificand_whole {cs : List Char} (h : Digits cs) :
    readSignificand cs = ⟨Nat.ofDigitChars 10 cs 0, 0⟩ := by
  unfold readSignificand
  rw [Text.around_self (h.not_mem (by decide))]
  simp

theorem readSignificand_fraction {a : List Char} (b : List Char) (h : Digits a) :
    readSignificand (a ++ '.' :: b) = ⟨Nat.ofDigitChars 10 (a ++ b) 0, -b.length⟩ := by
  unfold readSignificand
  rw [Text.around_append _ (h.not_mem (by decide))]

theorem read_plain {cs : List Char} (h : 'e' ∉ cs) : read cs = readSignificand cs := by
  unfold read
  rw [Text.around_self h]
  simp [readExponent]

theorem read_scaled {cs : List Char} (e : List Char) (h : 'e' ∉ cs) :
    read (cs ++ 'e' :: e) =
      ⟨(readSignificand cs).digits, (readSignificand cs).scale + readExponent e⟩ := by
  unfold read
  rw [Text.around_append _ h]

theorem read_point {a b : List Char} (ha : Digits a) (hb : Digits b) :
    read (a ++ '.' :: b) = ⟨Nat.ofDigitChars 10 (a ++ b) 0, -b.length⟩ := by
  rw [read_plain, readSignificand_fraction b ha]
  intro h
  simp only [List.mem_append, List.mem_cons] at h
  rcases h with h | h | h
  · exact ha.not_mem (by decide) h
  · cases h
  · exact hb.not_mem (by decide) h

theorem read_wholeText (n : Nat) : read (wholeText n).toList = ⟨n, 0⟩ := by
  have hd := digits_toDigits n
  rw [toList_wholeText, read_plain (hd.not_mem (by decide)),
    readSignificand_whole hd, Nat.ofDigitChars_ten_toDigits]

/-! ## The texts read back -/

theorem readExponent_exponentText (layout : Layout) (e : Int) :
    readExponent (exponentText layout e).toList = e := by
  have hd := digits_toDigits e.natAbs
  have hn := Nat.ofDigitChars_ten_toDigits (n := e.natAbs)
  unfold exponentText
  split
  · rw [String.toList_append, toList_wholeText]
    show -(Nat.ofDigitChars 10 (Nat.toDigits 10 e.natAbs) 0 : Int) = e
    rw [hn]
    omega
  · split
    · rw [String.toList_append, toList_wholeText]
      show (Nat.ofDigitChars 10 (Nat.toDigits 10 e.natAbs) 0 : Int) = e
      rw [hn]
      omega
    · rw [toList_wholeText, readExponent_digits hd, hn]
      omega

theorem toList_significandText (d : Char) {ds : List Char} (h : ds ≠ []) :
    (significandText (d :: ds)).toList = [d] ++ '.' :: ds := by
  cases ds with
  | nil => exact absurd rfl h
  | cons c ds => simp [significandText]

theorem readSignificand_significandText {ds : List Char} (h : Digits ds) (hn : ds ≠ []) :
    readSignificand (significandText ds).toList = ⟨Nat.ofDigitChars 10 ds 0, 1 - ds.length⟩ := by
  cases ds with
  | nil => exact absurd rfl hn
  | cons d ds =>
    by_cases hs : ds = []
    · subst hs
      rw [significandText, String.toList_ofList, readSignificand_whole h]
      rfl
    · have hd : Digits [d] := fun c hc => h c (List.mem_cons.2 (Or.inl (List.mem_singleton.1 hc)))
      rw [toList_significandText d hs, readSignificand_fraction ds hd, List.singleton_append,
        List.length_cons]
      congr 1
      omega

def isPlain (c : Char) : Bool := c.isDigit || c == '.'

theorem Digits.all_isPlain {cs : List Char} (h : Digits cs) : cs.all isPlain = true := by
  rw [List.all_eq_true]
  intro c hc
  rw [isPlain, h c hc]
  rfl

theorem all_significandText {ds : List Char} (h : Digits ds) :
    (significandText ds).toList.all isPlain = true := by
  have hd := h.all_isPlain
  cases ds with
  | nil => rfl
  | cons d ds =>
    by_cases hs : ds = []
    · subst hs
      rw [significandText, String.toList_ofList]
      exact hd
    · rw [List.all_cons, Bool.and_eq_true] at hd
      rw [toList_significandText d hs, List.all_append, List.all_cons, List.all_cons, hd.1, hd.2]
      rfl

/-- Plain notation is digits with a point among them: those of the decimal, with zeros in front that
do not count or with zeros behind them. -/
theorem toList_plainText {ds : List Char} (h : Digits ds) (hn : ds ≠ []) (e : Int) :
    ∃ a b, (plainText ds e).toList = a ++ '.' :: b ∧ Digits a ∧ a ≠ [] ∧ Digits b ∧
      ∃ k : Nat, Nat.ofDigitChars 10 (a ++ b) 0 = Nat.ofDigitChars 10 ds 0 * 10 ^ k ∧
        e + 1 - ds.length = -b.length + k := by
  unfold plainText
  split
  · refine ⟨['0'], List.replicate (-e - 1).toNat '0' ++ ds, by simp [zeros], digits_zero, by simp,
      (digits_zeros _).append h, 0, by simp [Nat.ofDigitChars_append, Nat.ofDigitChars_cons], ?_⟩
    rw [List.length_append, List.length_replicate]
    omega
  · dsimp only
    split
    · refine ⟨ds ++ List.replicate (e.toNat + 1 - ds.length) '0', ['0'], by simp [zeros],
        h.append (digits_zeros _), by simp [hn], digits_zero, e.toNat + 1 - ds.length + 1, ?_, ?_⟩
      · rw [List.append_assoc, ← List.replicate_succ', Nat.ofDigitChars_append,
          Nat.ofDigitChars_replicate_zero, Nat.mul_comm]
      · rw [List.length_singleton]
        omega
    · refine ⟨ds.take (e.toNat + 1), ds.drop (e.toNat + 1), by simp,
        fun c hc => h c (List.mem_of_mem_take hc), by simp [hn],
        fun c hc => h c (List.mem_of_mem_drop hc), 0, ?_, ?_⟩
      · rw [List.take_append_drop, Nat.pow_zero, Nat.mul_one]
      · rw [List.length_drop]
        omega

theorem read_plainText {ds : List Char} (h : Digits ds) (hn : ds ≠ []) (e : Int) :
    (read (plainText ds e).toList).toBinary64 =
      toBinary64 ⟨Nat.ofDigitChars 10 ds 0, e + 1 - ds.length⟩ := by
  obtain ⟨a, b, hl, ha, -, hb, k, hk, he⟩ := toList_plainText h hn e
  rw [hl, read_point ha hb, hk, toBinary64_shift, he]

/-- The text of a decimal is read as the same number. -/
theorem read_text (layout : Layout) (d : Decimal) :
    (read (text layout d).toList).toBinary64 = d.toBinary64 := by
  have hd := digits_toDigits d.digits
  have hn : Nat.toDigits 10 d.digits ≠ [] := Nat.toDigits_ne_nil
  unfold text
  dsimp only
  split
  · rw [read_plainText hd hn, Nat.ofDigitChars_ten_toDigits]
    congr 2
    omega
  · have hl : ∀ s t : String, (s ++ "e" ++ t).toList = s.toList ++ 'e' :: t.toList := by
      intro s t
      simp
    have he := Text.not_mem_of_all (all_significandText hd) (c := 'e') (by decide)
    rw [hl, read_scaled _ he, readSignificand_significandText hd hn, readExponent_exponentText,
      Nat.ofDigitChars_ten_toDigits]
    congr 2
    dsimp only
    omega

/-! ## Signs -/

/-- A text without a sign begins with a digit. -/
def Opens (cs : List Char) : Prop := ∃ c rest, cs = c :: rest ∧ c.isDigit = true

theorem Opens.append {a : List Char} (h : Opens a) (b : List Char) : Opens (a ++ b) := by
  obtain ⟨c, rest, rfl, hc⟩ := h
  exact ⟨c, rest ++ b, rfl, hc⟩

theorem Digits.opens {ds : List Char} (h : Digits ds) (hn : ds ≠ []) : Opens ds := by
  obtain ⟨d, rest, rfl⟩ := List.exists_cons_of_ne_nil hn
  exact ⟨d, rest, rfl, h d List.mem_cons_self⟩

theorem opens_wholeText (n : Nat) : Opens (wholeText n).toList := by
  rw [toList_wholeText]
  exact (digits_toDigits n).opens Nat.toDigits_ne_nil

theorem opens_plainText {ds : List Char} (h : Digits ds) (hn : ds ≠ []) (e : Int) :
    Opens (plainText ds e).toList := by
  obtain ⟨a, b, hl, ha, hne, -⟩ := toList_plainText h hn e
  rw [hl]
  exact (ha.opens hne).append _

theorem opens_significandText {ds : List Char} (h : Digits ds) (hn : ds ≠ []) :
    Opens (significandText ds).toList := by
  obtain ⟨d, rest, rfl⟩ := List.exists_cons_of_ne_nil hn
  have hd := h d List.mem_cons_self
  cases rest with
  | nil => exact ⟨d, [], by simp [significandText], hd⟩
  | cons c rest => exact ⟨d, '.' :: c :: rest, by simp [significandText], hd⟩

theorem opens_text (layout : Layout) (d : Decimal) : Opens (text layout d).toList := by
  have hd := digits_toDigits d.digits
  have hn : Nat.toDigits 10 d.digits ≠ [] := Nat.toDigits_ne_nil
  unfold text
  dsimp only
  split
  · exact opens_plainText hd hn _
  · simp only [String.toList_append]
    exact ((opens_significandText hd hn).append _).append _

/-- The number in a text, with a sign or without. -/
def readSigned : List Char → Binary64
  | '-' :: cs => { (read cs).toBinary64 with negative := true }
  | cs => (read cs).toBinary64

theorem readSigned_opens {cs : List Char} (h : Opens cs) : readSigned cs = (read cs).toBinary64 := by
  obtain ⟨c, rest, rfl, hc⟩ := h
  unfold readSigned
  split
  · next he =>
    cases he
    exact absurd hc (by decide)
  · rfl

theorem readSigned_minus (s : String) :
    readSigned ("-" ++ s).toList = { (read s.toList).toBinary64 with negative := true } := by
  rw [String.toList_append]
  rfl

/-- A sign in front of a magnitude is read as the number with that sign. -/
theorem readSigned_sign {x : Binary64} {s : String} (ho : Opens s.toList)
    (hr : (read s.toList).toBinary64 = x.abs) :
    readSigned ((if x.negative then "-" else "") ++ s).toList = x := by
  by_cases hn : x.negative = true
  · rw [if_pos hn, readSigned_minus, hr]
    cases x
    cases hn
    rfl
  · rw [if_neg hn, String.empty_append, readSigned_opens ho, hr]
    cases x
    cases Bool.eq_false_iff.2 hn
    rfl

/-- The text of a finite number is read as that number. -/
theorem readSigned_finiteText (layout : Layout) {x : Binary64} (h : x.isFinite = true) :
    readSigned (finiteText layout x).toList = x := by
  have ht := read_text layout (shortest x)
  rw [toBinary64_shortest h] at ht
  exact readSigned_sign (opens_text layout (shortest x)) ht

/-! ## Characters -/

def isNumeric (c : Char) : Bool := isPlain c || c == 'e' || c == '-' || c == '+'

theorem all_isNumeric {cs : List Char} (h : cs.all isPlain = true) : cs.all isNumeric = true := by
  rw [List.all_eq_true] at h ⊢
  intro c hc
  rw [isNumeric, h c hc]
  rfl

theorem all_wholeText (n : Nat) : (wholeText n).toList.all isNumeric = true := by
  rw [toList_wholeText]
  exact all_isNumeric (digits_toDigits n).all_isPlain

theorem all_plainText {ds : List Char} (h : Digits ds) (hn : ds ≠ []) (e : Int) :
    (plainText ds e).toList.all isPlain = true := by
  obtain ⟨a, b, hl, ha, -, hb, -⟩ := toList_plainText h hn e
  rw [hl, List.all_append, List.all_cons, ha.all_isPlain, hb.all_isPlain]
  rfl

theorem all_exponentText (layout : Layout) (e : Int) :
    (exponentText layout e).toList.all isNumeric = true := by
  have hw := all_wholeText e.natAbs
  unfold exponentText
  split
  · rw [String.toList_append, List.all_append, hw]
    rfl
  · split
    · rw [String.toList_append, List.all_append, hw]
      rfl
    · exact hw

theorem all_text (layout : Layout) (d : Decimal) :
    (text layout d).toList.all isNumeric = true := by
  have hd := digits_toDigits d.digits
  have hn : Nat.toDigits 10 d.digits ≠ [] := Nat.toDigits_ne_nil
  unfold text
  dsimp only
  split
  · exact all_isNumeric (all_plainText hd hn _)
  · rw [String.toList_append, String.toList_append, List.all_append, List.all_append,
      all_isNumeric (all_significandText hd), all_exponentText]
    rfl

theorem all_finiteText (layout : Layout) (x : Binary64) :
    (finiteText layout x).toList.all isNumeric = true := by
  unfold finiteText
  rw [String.toList_append, List.all_append, all_text, Bool.and_true]
  split <;> rfl

end Decimal
end Telemetry
