import Telemetry.Binary64
/-!
Decimal fractions, and the shortest one that reads back as a given binary number.

`Decimal.shortest` looks at one to seventeen significant digits. On the grid of each length only the
two neighbours of the value can be the nearest decimal, so it asks which of them reads back; the
first length with a hit wins, of two hits the nearer one, and of two equally near ones the one with
the even last digit. The exact decimal expansion closes the list, so the result always reads back.
-/

namespace Telemetry

/-- The number `digits * 10 ^ scale`. -/
structure Decimal where
  digits : Nat
  scale : Int
  deriving DecidableEq, Repr

namespace Decimal

def numerator (d : Decimal) : Nat := d.digits * 10 ^ d.scale.toNat

def denominator (d : Decimal) : Nat := 10 ^ (-d.scale).toNat

/-- The binary number that a reader makes of a decimal. -/
def toBinary64 (d : Decimal) : Binary64 := Binary64.ofRatio d.numerator d.denominator

/-- The largest `e` with `10 ^ e ≤ u / 2 ^ 1074`, for `u` not zero. -/
def leadingExponent (u : Nat) : Int :=
  if Binary64.one ≤ u then
    ((List.range 309).countP fun k => Binary64.one * 10 ^ (k + 1) ≤ u : Nat)
  else -((List.range 324).countP fun k => u * 10 ^ k < Binary64.one : Nat)

/-- The neighbours of `u / 2 ^ 1074` among the multiples of `10 ^ scale`, the nearer one first; of
two equally near ones the even one is first. -/
def neighbours (u : Nat) (scale : Int) : List Decimal :=
  let a := u * 10 ^ (-scale).toNat
  let b := Binary64.one * 10 ^ scale.toNat
  let q := a / b
  let low : Decimal := ⟨q, scale⟩
  let high : Decimal := ⟨q + 1, scale⟩
  if a % b = 0 then [low]
  else if 2 * (a % b) < b ∨ (2 * (a % b) = b ∧ q % 2 = 0) then [low, high]
  else [high, low]

/-- The decimal equal to `u / 2 ^ 1074`. -/
def exact (u : Nat) : Decimal := ⟨u * 5 ^ 1074, -1074⟩

/-- The nearest decimal of `n + 1` digits that reads back as the magnitude of `x`. -/
def ofLength? (x : Binary64) (n : Nat) : Option Decimal :=
  (neighbours x.units (leadingExponent x.units - Int.ofNat n)).find? fun d => d.toBinary64 = x.abs

/-- Without trailing zeros among the digits, except for zero itself. -/
def strip (d : Decimal) : Decimal :=
  let zeros := ((Nat.toDigits 10 d.digits).reverse.takeWhile (· == '0')).length
  if d.digits = 0 then ⟨0, 0⟩ else ⟨d.digits / 10 ^ zeros, d.scale + zeros⟩

/-- The shortest decimal that reads back as the magnitude of `x`, which is finite. -/
def shortest (x : Binary64) : Decimal :=
  strip (((List.range 17).findSome? (ofLength? x)).getD (exact x.units))

end Decimal
end Telemetry
