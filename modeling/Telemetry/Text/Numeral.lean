/-!
Unsigned decimal numerals.

A numeral is a non-empty run of ASCII digits after an optional plus sign. The reader goes from
left to right and stops at the first fault; at each position a character that is no digit is
noticed before an overflow, so a text with both faults reports the one it reaches first.
-/

namespace Telemetry
namespace Numeral

inductive Fault where
  | empty
  | invalidDigit
  | tooLarge
  deriving DecidableEq, Repr

def Fault.message : Fault → String
  | .empty => "cannot parse integer from empty string"
  | .invalidDigit => "invalid digit found in string"
  | .tooLarge => "number too large to fit in target type"

def isDigit (c : Char) : Bool := '0' ≤ c && c ≤ '9'

def digitValue (c : Char) : Nat := c.toNat - '0'.toNat

/-- Read digits behind a number already read, staying below `limit`. -/
def readDigits (limit : Nat) : Nat → List Char → Except Fault Nat
  | n, [] => .ok n
  | n, c :: cs =>
    if isDigit c then
      if n * 10 + digitValue c < limit then readDigits limit (n * 10 + digitValue c) cs
      else .error .tooLarge
    else .error .invalidDigit

/-- Read a numeral below `limit`. A sign without digits behind it is an invalid digit. -/
def parse (limit : Nat) : List Char → Except Fault Nat
  | [] => .error .empty
  | '+' :: c :: cs => readDigits limit 0 (c :: cs)
  | cs => readDigits limit 0 cs

/-- Bounds are powers as the language computes them, whatever algebra a module knows besides. -/
@[default_instance high]
instance powNat : Pow Nat Nat := instPowNat

/-- The bounds of the fixed widths that numerals are read into. -/
def limit64 : Nat := 2 ^ 64

def limit32 : Nat := 2 ^ 32

def limit16 : Nat := 2 ^ 16

theorem readDigits_lt {limit n m : Nat} {cs : List Char} (hn : n < limit)
    (h : readDigits limit n cs = .ok m) : m < limit := by
  induction cs generalizing n with
  | nil => simp only [readDigits, Except.ok.injEq] at h; omega
  | cons c cs ih =>
    simp only [readDigits] at h
    split at h
    · split at h
      · rename_i hlt
        exact ih hlt h
      · simp at h
    · simp at h

/-- What is read fits the width. -/
theorem parse_lt {limit m : Nat} {cs : List Char} (hl : 0 < limit)
    (h : parse limit cs = .ok m) : m < limit := by
  unfold parse at h
  split at h
  · simp at h
  · exact readDigits_lt hl h
  · exact readDigits_lt hl h

end Numeral
end Telemetry
