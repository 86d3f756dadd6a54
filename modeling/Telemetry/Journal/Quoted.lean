/-!
Quoted texts of JSON, and the pieces in which a writer hands them on.

Inside quotes the quotation mark, the backslash and the control characters below the space are
escaped, and nothing else is. A writer hands on each escape by itself and each run of other
characters as a whole. The main statement is `flatten_pieces`: however the text is cut, it is the
quoted text.
-/

namespace Telemetry
namespace Quoted

def hexDigit (n : Nat) : Char :=
  if n < 10 then Char.ofNat ('0'.toNat + n) else Char.ofNat ('a'.toNat + (n - 10))

/-- The escape of a character that may not stand for itself. -/
def escape? (c : Char) : Option (List Char) :=
  if c = '"' then some ['\\', '"']
  else if c = '\\' then some ['\\', '\\']
  else if ' ' ≤ c then none
  else if c = '\x08' then some ['\\', 'b']
  else if c = '\t' then some ['\\', 't']
  else if c = '\n' then some ['\\', 'n']
  else if c = '\x0c' then some ['\\', 'f']
  else if c = '\r' then some ['\\', 'r']
  else some ['\\', 'u', '0', '0', hexDigit (c.toNat / 16), hexDigit (c.toNat % 16)]

def inside (c : Char) : List Char := (escape? c).getD [c]

def text (cs : List Char) : List Char := '"' :: cs.flatMap inside ++ ['"']

/-- A run of unescaped characters, given last character first, unless it is empty. -/
def run (cs : List Char) : List (List Char) := if cs.isEmpty then [] else [cs.reverse]

/-- The pieces between the quotes behind the run `before`. -/
def insidePieces (before : List Char) : List Char → List (List Char)
  | [] => run before
  | c :: cs =>
    match escape? c with
    | some e => run before ++ e :: insidePieces [] cs
    | none => insidePieces (c :: before) cs

def pieces (cs : List Char) : List (List Char) := ['"'] :: insidePieces [] cs ++ [['"']]

theorem flatten_run (cs : List Char) : (run cs).flatten = cs.reverse := by
  cases cs <;> simp [run]

theorem flatten_insidePieces (before cs : List Char) :
    (insidePieces before cs).flatten = before.reverse ++ cs.flatMap inside := by
  induction cs generalizing before with
  | nil => simp [insidePieces, flatten_run]
  | cons c cs ih =>
    simp only [insidePieces]
    split
    · rename_i e he
      simp [flatten_run, ih, inside, he]
    · rename_i he
      simp [ih, inside, he]

/-- Joined, the pieces are the quoted text. -/
theorem flatten_pieces (cs : List Char) : (pieces cs).flatten = text cs := by
  simp [pieces, text, flatten_insidePieces]

end Quoted
end Telemetry
