/-!
Blank characters, and cutting a text at them.

Two classes of blanks occur in the files read here. Ends of a line or of a value are trimmed of
every character with the Unicode property White_Space; words inside a value are separated by the
five ASCII blanks only, to which the vertical tab does not belong.
-/

namespace Telemetry
namespace Text

/-- The code points with the Unicode property White_Space, as closed ranges. -/
def blankRanges : List (Nat × Nat) :=
  [(0x09, 0x0D), (0x20, 0x20), (0x85, 0x85), (0xA0, 0xA0), (0x1680, 0x1680), (0x2000, 0x200A),
   (0x2028, 0x2029), (0x202F, 0x202F), (0x205F, 0x205F), (0x3000, 0x3000)]

/-- A character with the property White_Space. -/
def isBlank (c : Char) : Bool :=
  blankRanges.any fun r => r.1 ≤ c.toNat && c.toNat ≤ r.2

/-- A blank that separates words: space, tab, line feed, form feed or carriage return. -/
def isWordBreak (c : Char) : Bool :=
  c == ' ' || c == '\t' || c == '\n' || c == '\x0c' || c == '\r'

def trimStart (cs : List Char) : List Char := cs.dropWhile isBlank

def trimEnd (cs : List Char) : List Char := (cs.reverse.dropWhile isBlank).reverse

def trim (cs : List Char) : List Char := trimEnd (trimStart cs)

/-- Put a character in front of the first of some pieces. -/
def consFirst (c : Char) : List (List Char) → List (List Char)
  | [] => [[c]]
  | p :: ps => (c :: p) :: ps

/-- The pieces between the characters that satisfy `sep`, empty ones included. There is always one
piece more than there are separators. -/
def pieces (sep : Char → Bool) : List Char → List (List Char)
  | [] => [[]]
  | c :: cs => if sep c then [] :: pieces sep cs else consFirst c (pieces sep cs)

/-- The non-empty pieces between word breaks. -/
def words (cs : List Char) : List (List Char) :=
  (pieces isWordBreak cs).filter fun w => !w.isEmpty

/-- A line without a carriage return at its end. -/
def withoutReturn (line : List Char) : List Char :=
  if line.getLast? == some '\r' then line.dropLast else line

/-- The lines of a text, the last one included. A line ends with a line feed, or with a carriage
return and a line feed. -/
def lines (cs : List Char) : List (List Char) := (pieces (· == '\n') cs).map withoutReturn

/-- The text before the first `c` and the text after it, if there is one. -/
def cutAt (c : Char) : List Char → Option (List Char × List Char)
  | [] => none
  | d :: cs => if d = c then some ([], cs) else (cutAt c cs).map fun (a, b) => (d :: a, b)

/-- The text before the last `c` and the text after it, if there is one. -/
def cutAtLast (c : Char) (cs : List Char) : Option (List Char × List Char) :=
  (cutAt c cs.reverse).map fun (b, a) => (a.reverse, b.reverse)

theorem isBlank_of_isWordBreak {c : Char} (h : isWordBreak c = true) : isBlank c = true := by
  simp only [isWordBreak, Bool.or_eq_true, beq_iff_eq] at h
  rcases h with (((h | h) | h) | h) | h <;> subst h <;> decide

theorem pieces_ne_nil (sep : Char → Bool) (cs : List Char) : pieces sep cs ≠ [] := by
  cases cs with
  | nil => simp [pieces]
  | cons c cs =>
    simp only [pieces]
    split
    · simp
    · cases pieces sep cs <;> simp [consFirst]

/-- Cutting and putting the separator back gives the text again. -/
theorem eq_of_cutAt {c : Char} {cs a b : List Char} (h : cutAt c cs = some (a, b)) :
    cs = a ++ c :: b := by
  induction cs generalizing a with
  | nil => simp [cutAt] at h
  | cons d cs ih =>
    simp only [cutAt] at h
    split at h
    · rename_i hd
      simp only [Option.some.injEq, Prod.mk.injEq] at h
      obtain ⟨rfl, rfl⟩ := h
      simp [hd]
    · simp only [Option.map_eq_some_iff, Prod.mk.injEq] at h
      obtain ⟨⟨x, y⟩, hxy, rfl, rfl⟩ := h
      simp [ih hxy]

end Text
end Telemetry
