import Telemetry.Text.Numeral
/-!
Binary floating point numbers of 64 bits, computed in exact arithmetic.

Every finite magnitude is a whole number of units of 2^-1074, the smallest positive one. A magnitude
is kept as its rank: the 63 bits below the sign, read as a number. Ranks are in the order of the
magnitudes they stand for, and one step in rank is one step to the next representable value, also
across a change of exponent. So rounding a quotient to the nearest value, ties to the even rank, is
rounding one division and adding the exponent's part of the rank.
-/

namespace Telemetry

/-- A floating point number as its sign and its rank. -/
structure Binary64 where
  negative : Bool
  rank : Nat
  rank_lt : rank < 2 ^ 63 := by omega
  deriving DecidableEq, Repr

namespace Binary64

/-- The rank of infinity; larger ranks are not numbers. -/
def infiniteRank : Nat := 2047 * 2 ^ 52

/-- Units of 2^-1074 in one. -/
def one : Nat := 2 ^ 1074

def zero : Binary64 := ⟨false, 0, by decide⟩

def infinite (negative : Bool) : Binary64 := ⟨negative, infiniteRank, by decide⟩

def isFinite (x : Binary64) : Bool := x.rank < infiniteRank

def isNaN (x : Binary64) : Bool := infiniteRank < x.rank

/-- The bits of a number, and the number with given bits. -/
def toBits (x : Binary64) : UInt64 :=
  UInt64.ofNat (x.rank + if x.negative then 2 ^ 63 else 0)

def ofBits (b : UInt64) : Binary64 :=
  ⟨2 ^ 63 ≤ b.toNat, b.toNat % 2 ^ 63, Nat.mod_lt _ (by decide)⟩

/-- The units in the magnitude with a finite rank. -/
def unitsOfRank (r : Nat) : Nat :=
  if r < 2 ^ 52 then r else (2 ^ 52 + r % 2 ^ 52) * 2 ^ (r / 2 ^ 52 - 1)

/-- The magnitude of a finite number in units of 2^-1074. -/
def units (x : Binary64) : Nat := unitsOfRank x.rank

/-- The whole number nearest to `a / b`, of two equally near ones the even one. -/
def divideToEven (a b : Nat) : Nat :=
  let q := a / b
  if 2 * (a % b) < b then q
  else if b < 2 * (a % b) then q + 1
  else q + q % 2

/-- How many bits of a whole number of units lie below the 53 that a number keeps. -/
def excess (units : Nat) : Nat := units.log2 - 52

/-- The rank nearest to `a / b` units. The excess of bits is cut off by the same division that
rounds, and a carry into the next power of two lands on the next exponent's first rank. -/
def rankOfUnits (a b : Nat) : Nat :=
  let s := excess (a / b)
  min (s * 2 ^ 52 + divideToEven a (b * 2 ^ s)) infiniteRank

theorem rankOfUnits_le (a b : Nat) : rankOfUnits a b ≤ infiniteRank := Nat.min_le_right _ _

theorem infiniteRank_lt : infiniteRank < 2 ^ 63 := by decide

/-- The non-negative number nearest to `a / b`; beyond the largest one it is infinite. -/
def ofRatio (a b : Nat) : Binary64 :=
  ⟨false, rankOfUnits (a * one) b, Nat.lt_of_le_of_lt (rankOfUnits_le _ _) infiniteRank_lt⟩

/-- The number nearest to a whole number. -/
def ofNat (n : Nat) : Binary64 := ofRatio n 1

/-- The rounded sum of two finite non-negative numbers. -/
def plus (x y : Binary64) : Binary64 := ofRatio (x.units + y.units) one

/-- The rounded quotient of two finite non-negative numbers, the second one not zero. -/
def dividedBy (x y : Binary64) : Binary64 := ofRatio x.units y.units

/-- A finite number without a fraction. -/
def isWhole (x : Binary64) : Bool := x.units % one = 0

/-- The whole part of a finite magnitude. -/
def whole (x : Binary64) : Nat := x.units / one

/-- The names of the values that are not finite. -/
def nonFiniteText (x : Binary64) : String :=
  if x.isNaN then "NaN" else if x.negative then "-inf" else "inf"

/-- A number with its sign turned off. -/
def abs (x : Binary64) : Binary64 := { x with negative := false }

end Binary64
end Telemetry
