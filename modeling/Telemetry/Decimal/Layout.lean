import Telemetry.Decimal.Shortest
/-!
Decimal texts of binary numbers.

The digits are always the shortest that read back. A number whose leading digit stands at the
exponent `-5` to `15` is written in plain notation with at least one digit on each side of the
point; any other number is written with one digit before the point and an exponent. Formats differ
in one decision only, whether a positive exponent carries a plus sign.
-/

namespace Telemetry
namespace Decimal

/-- What a format decides about the text of a number. -/
structure Layout where
  /-- A positive exponent is written with its sign. -/
  signedExponent : Bool
  deriving DecidableEq, Repr

/-- Where plain notation begins and ends, by the exponent of the leading digit. -/
def plainFrom : Int := -5

def plainBelow : Int := 16

def zeros (n : Nat) : String := String.ofList (List.replicate n '0')

def wholeText (n : Nat) : String := String.ofList (Nat.toDigits 10 n)

/-- Plain notation for the digits `ds` whose first one stands at exponent `e`. -/
def plainText (ds : List Char) (e : Int) : String :=
  if e < 0 then "0." ++ zeros (-e - 1).toNat ++ String.ofList ds
  else
    let places := e.toNat + 1
    if ds.length ≤ places then String.ofList ds ++ zeros (places - ds.length) ++ ".0"
    else String.ofList (ds.take places) ++ "." ++ String.ofList (ds.drop places)

/-- The digits `ds` with a point behind the first one. -/
def significandText : List Char → String
  | [] => ""
  | [d] => String.ofList [d]
  | d :: ds => String.ofList [d] ++ "." ++ String.ofList ds

def exponentText (layout : Layout) (e : Int) : String :=
  if e < 0 then "-" ++ wholeText e.natAbs
  else if layout.signedExponent then "+" ++ wholeText e.natAbs
  else wholeText e.natAbs

def text (layout : Layout) (d : Decimal) : String :=
  let ds := Nat.toDigits 10 d.digits
  let e := d.scale + ds.length - 1
  if plainFrom ≤ e ∧ e < plainBelow then plainText ds e
  else significandText ds ++ "e" ++ exponentText layout e

def finiteText (layout : Layout) (x : Binary64) : String :=
  (if x.negative then "-" else "") ++ text layout (shortest x)

end Decimal
end Telemetry
