import Telemetry.Duration
/-!
Rounding to a binary number.

A quotient is rounded as the number that it is, however it is written, and one that a binary number
stands for is rounded to that number.
-/

namespace Telemetry
namespace Binary64

theorem one_eq : one = 2 ^ 1074 := rfl

theorem one_pos : 0 < one := by
  unfold one
  apply Nat.two_pow_pos

theorem divideToEven_mul (q : Nat) {b : Nat} (hb : 0 < b) : divideToEven (q * b) b = q := by
  unfold divideToEven
  rw [Nat.mul_mod_left, Nat.mul_div_cancel q hb]
  exact if_pos hb

theorem divideToEven_scale (a b : Nat) {c : Nat} (hc : 0 < c) :
    divideToEven (a * c) (b * c) = divideToEven a b := by
  have hl : 2 * (a % b * c) < b * c ↔ 2 * (a % b) < b := by
    rw [← Nat.mul_assoc]
    exact Nat.mul_lt_mul_right hc
  have hu : b * c < 2 * (a % b * c) ↔ b < 2 * (a % b) := by
    rw [← Nat.mul_assoc]
    exact Nat.mul_lt_mul_right hc
  unfold divideToEven
  rw [Nat.mul_mod_mul_right, Nat.mul_div_mul_right a b hc]
  simp only [hl, hu]

theorem divideToEven_le (a b : Nat) : divideToEven a b ≤ a / b + 1 := by
  unfold divideToEven
  dsimp only
  split
  · omega
  · split
    · omega
    · omega

theorem rankOfUnits_scale (a b : Nat) {c : Nat} (hc : 0 < c) :
    rankOfUnits (a * c) (b * c) = rankOfUnits a b := by
  unfold rankOfUnits
  rw [Nat.mul_div_mul_right a b hc]
  dsimp only
  rw [Nat.mul_right_comm b c, divideToEven_scale _ _ hc]

/-- Equal quotients are rounded alike. -/
theorem rankOfUnits_congr {a b c d : Nat} (hb : 0 < b) (hd : 0 < d) (h : a * d = c * b) :
    rankOfUnits a b = rankOfUnits c d := by
  rw [← rankOfUnits_scale a b hd, h, Nat.mul_comm b d, rankOfUnits_scale c d hb]

theorem unitsOfRank_small {r : Nat} (h : r < 2 ^ 52) : unitsOfRank r = r := by
  unfold unitsOfRank
  exact if_pos h

theorem unitsOfRank_large {r : Nat} (h : 2 ^ 52 ≤ r) :
    unitsOfRank r = (2 ^ 52 + r % 2 ^ 52) * 2 ^ (r / 2 ^ 52 - 1) := by
  unfold unitsOfRank
  exact if_neg (Nat.not_lt_of_le h)

theorem excess_small {u : Nat} (h : u < 2 ^ 53) : excess u = 0 := by
  unfold excess
  by_cases hu : u = 0
  · rw [hu]
    rfl
  · have hl := (Nat.log2_lt hu).2 h
    omega

theorem excess_mul {m e : Nat} (hl : 2 ^ 52 ≤ m) (hu : m < 2 ^ 53) : excess (m * 2 ^ e) = e := by
  have hp : 0 < 2 ^ e := Nat.pow_pos (by omega)
  have hn : m * 2 ^ e ≠ 0 := Nat.mul_ne_zero (by omega) (by omega)
  have hlog : (m * 2 ^ e).log2 = 52 + e := by
    rw [Nat.log2_eq_iff hn]
    constructor
    · rw [Nat.pow_add]
      exact Nat.mul_le_mul_right _ hl
    · rw [Nat.add_right_comm, Nat.pow_add]
      exact Nat.mul_lt_mul_of_pos_right hu hp
  unfold excess
  omega

/-- A whole number of units that a number stands for is rounded to that number. -/
theorem rankOfUnits_unitsOfRank {r : Nat} (h : r < infiniteRank) :
    rankOfUnits (unitsOfRank r) 1 = r := by
  unfold rankOfUnits
  rw [Nat.div_one]
  dsimp only
  by_cases hs : r < 2 ^ 52
  · rw [unitsOfRank_small hs, excess_small (by omega)]
    have hd := divideToEven_mul r (b := 1) (by omega)
    rw [Nat.mul_one] at hd
    rw [Nat.pow_zero, Nat.mul_one, hd]
    omega
  · have hle := Nat.le_of_not_lt hs
    have he : excess (unitsOfRank r) = r / 2 ^ 52 - 1 := by
      rw [unitsOfRank_large hle]
      exact excess_mul (by omega) (by omega)
    rw [he, unitsOfRank_large hle, Nat.one_mul, divideToEven_mul _ (Nat.pow_pos (by omega))]
    omega

theorem rank_of_units {x : Binary64} (h : x.isFinite = true) : rankOfUnits x.units 1 = x.rank :=
  rankOfUnits_unitsOfRank (of_decide_eq_true h)

/-- The same number. The two zeros are one number. -/
def Equals (x y : Binary64) : Prop := x = y ∨ (x.rank = 0 ∧ y.rank = 0)

theorem Equals.eq {x y : Binary64} (h : x.Equals y) (hn : x.negative = y.negative) : x = y := by
  rcases h with h | ⟨hx, hy⟩
  · exact h
  · cases x
    cases y
    cases hn
    cases hx
    cases hy
    rfl

theorem units_zero {x : Binary64} (h : x.rank = 0) : x.units = 0 := by
  unfold units
  rw [h]
  rfl

theorem rank_of_units_zero {x : Binary64} (h : x.isFinite = true) (hu : x.units = 0) :
    x.rank = 0 := by
  rw [← rank_of_units h, hu]
  rfl

/-- A whole number of units with 53 bits and zeros behind them is kept. -/
theorem unitsOfRank_rankOfUnits {m e : Nat} (hl : 2 ^ 52 ≤ m) (hu : m < 2 ^ 53) (he : e < 2045) :
    unitsOfRank (rankOfUnits (m * 2 ^ e) 1) = m * 2 ^ e := by
  have hr : rankOfUnits (m * 2 ^ e) 1 = e * 2 ^ 52 + m := by
    unfold rankOfUnits
    rw [Nat.div_one, excess_mul hl hu]
    dsimp only
    rw [Nat.one_mul, divideToEven_mul _ (Nat.pow_pos (by omega))]
    exact Nat.min_eq_left (by unfold infiniteRank; omega)
  have hm : 2 ^ 52 + (e * 2 ^ 52 + m) % 2 ^ 52 = m := by omega
  have hd : (e * 2 ^ 52 + m) / 2 ^ 52 - 1 = e := by omega
  rw [hr, unitsOfRank_large (by omega), hm, hd]

/-- A whole number of at most 53 bits is a number. -/
theorem units_ofNat {n : Nat} (h : n < 2 ^ 53) : (ofNat n).units = n * one := by
  show unitsOfRank (rankOfUnits (n * one) 1) = n * one
  by_cases hn : n = 0
  · rw [hn, Nat.zero_mul]
    exact rankOfUnits_unitsOfRank (r := 0) (by decide)
  · have hlog := (Nat.log2_lt hn).2 h
    have hl : 2 ^ 52 ≤ n * 2 ^ (52 - n.log2) := by
      have hp : 2 ^ 52 = 2 ^ n.log2 * 2 ^ (52 - n.log2) := by
        rw [← Nat.pow_add]
        congr 1
        omega
      rw [hp]
      exact Nat.mul_le_mul_right _ (Nat.log2_self_le hn)
    have hu : n * 2 ^ (52 - n.log2) < 2 ^ 53 := by
      have hp : 2 ^ 53 = 2 ^ (n.log2 + 1) * 2 ^ (52 - n.log2) := by
        rw [← Nat.pow_add]
        congr 1
        omega
      rw [hp]
      exact Nat.mul_lt_mul_of_pos_right Nat.lt_log2_self (Nat.pow_pos (by omega))
    have ho : n * one = n * 2 ^ (52 - n.log2) * 2 ^ (1074 - (52 - n.log2)) := by
      rw [Nat.mul_assoc, ← Nat.pow_add, Nat.add_sub_cancel' (by omega), one_eq]
    rw [ho]
    exact unitsOfRank_rankOfUnits hl hu (by omega)

/-! ## Sizes -/

theorem rankOfUnits_lt {a b k : Nat} (h : a / b < 2 ^ (k + 53)) :
    rankOfUnits a b ≤ (k + 2) * 2 ^ 52 := by
  have hs : excess (a / b) ≤ k ∧ a / b < 2 ^ 53 * 2 ^ excess (a / b) := by
    unfold excess
    by_cases hz : a / b = 0
    · rw [hz]
      exact ⟨Nat.zero_le _, by decide⟩
    · have hl := (Nat.log2_lt hz).2 h
      refine ⟨by omega, ?_⟩
      rw [← Nat.pow_add, ← Nat.log2_lt hz]
      omega
  have hq : a / (b * 2 ^ excess (a / b)) < 2 ^ 53 := by
    rw [← Nat.div_div_eq_div_mul]
    exact Nat.div_lt_of_lt_mul (Nat.mul_comm _ _ ▸ hs.2)
  have hd := divideToEven_le a (b * 2 ^ excess (a / b))
  unfold rankOfUnits
  dsimp only
  omega

theorem unitsOfRank_lt {r k : Nat} (h : r ≤ (k + 2) * 2 ^ 52) : unitsOfRank r < 2 ^ (k + 54) := by
  have hk : k + 54 = 53 + (k + 1) := by omega
  rw [hk, Nat.pow_add]
  have hp : 0 < 2 ^ (k + 1) := Nat.pow_pos (by omega)
  by_cases hs : r < 2 ^ 52
  · rw [unitsOfRank_small hs]
    exact Nat.lt_of_lt_of_le (Nat.lt_trans hs (by decide)) (Nat.le_mul_of_pos_right _ hp)
  · rw [unitsOfRank_large (Nat.le_of_not_lt hs)]
    have he : r / 2 ^ 52 - 1 ≤ k + 1 := by omega
    have hm : 2 ^ 52 + r % 2 ^ 52 < 2 ^ 53 := by omega
    exact Nat.lt_of_le_of_lt (Nat.mul_le_mul_left _ (Nat.pow_le_pow_right (by omega) he))
      (Nat.mul_lt_mul_of_pos_right hm hp)

theorem units_ofNat_lt {n k : Nat} (h : n < 2 ^ k) : (ofNat n).units < 2 ^ (k + 1021 + 54) := by
  have hk : k + 1021 + 53 = k + 1074 := by omega
  have hp : ∀ e, n * 2 ^ e < 2 ^ (k + e) := by
    intro e
    rw [Nat.pow_add]
    exact Nat.mul_lt_mul_of_pos_right h (Nat.two_pow_pos e)
  have hn : n * one / 1 < 2 ^ (k + 1021 + 53) := by
    rw [Nat.div_one, hk]
    exact hp 1074
  exact unitsOfRank_lt (rankOfUnits_lt hn)

end Binary64

namespace Duration

theorem rank_toMillis_le {d : Duration} {k : Nat} (h : d.nanos < 2 ^ k) :
    d.toMillis.rank ≤ (k + 1021 + 1 + 2) * 2 ^ 52 := by
  have hm : (Binary64.ofNat nanosPerMillisecond).units = nanosPerMillisecond * Binary64.one :=
    Binary64.units_ofNat (by decide)
  refine Binary64.rankOfUnits_lt ?_
  rw [hm, Nat.mul_div_mul_right _ _ Binary64.one_pos, Nat.add_right_comm]
  exact Nat.lt_of_le_of_lt (Nat.div_le_self _ _) (Binary64.units_ofNat_lt h)

theorem negative_toMillis (d : Duration) : d.toMillis.negative = false := rfl

/-- Every span has a finite number of milliseconds. -/
theorem isFinite_toMillis (d : Duration) : d.toMillis.isFinite = true := by
  have hd : d.nanos < 2 ^ 94 := Nat.lt_trans d.nanos_lt (by decide)
  exact decide_eq_true (Nat.lt_of_le_of_lt (rank_toMillis_le hd) (by decide))

end Duration
end Telemetry
