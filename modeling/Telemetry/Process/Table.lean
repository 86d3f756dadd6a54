import Telemetry.Text.Blank
/-!
Lines, columns and properties of the text tables that describe a process.

Lines are trimmed and blank ones do not count. Columns of a line are separated by at least two
spaces, so a single space may stand inside a column. A property is a key and a value around the
first colon of a line.
-/

namespace Telemetry
namespace Table

/-- The trimmed lines that are not blank. -/
def lines (cs : List Char) : List (List Char) :=
  ((Text.pieces (· == '\n') cs).map Text.trim).filter fun line => !line.isEmpty

/-- The lines below the header. -/
def rows (cs : List Char) : List (List Char) := (lines cs).drop 1

/-- The text before the first two adjacent spaces and the text behind them. -/
def cutAtGap : List Char → Option (List Char × List Char)
  | [] => none
  | [_] => none
  | c :: d :: cs =>
    if c = ' ' ∧ d = ' ' then some ([], cs)
    else (cutAtGap (d :: cs)).map fun (a, b) => (c :: a, b)

theorem eq_of_cutAtGap {cs a b : List Char} (h : cutAtGap cs = some (a, b)) :
    cs = a ++ ' ' :: ' ' :: b := by
  fun_induction cutAtGap cs generalizing a with
  | case1 => simp at h
  | case2 => simp at h
  | case3 c d cs hc =>
    simp only [Option.some.injEq, Prod.mk.injEq] at h
    obtain ⟨rfl, rfl⟩ := h
    simp [hc.1, hc.2]
  | case4 c d cs hc ih =>
    simp only [Option.map_eq_some_iff, Prod.mk.injEq] at h
    obtain ⟨⟨x, y⟩, hxy, rfl, rfl⟩ := h
    simp [ih hxy]

theorem length_trimStart_le (cs : List Char) : (Text.trimStart cs).length ≤ cs.length :=
  (List.dropWhile_suffix Text.isBlank).length_le

/-- The columns of a line. Blanks in front of a column do not belong to it. -/
def columns (cs : List Char) : List (List Char) :=
  if (Text.trimStart cs).isEmpty then []
  else
    match _h : cutAtGap (Text.trimStart cs) with
    | none => [Text.trimStart cs]
    | some (a, b) => a :: columns b
termination_by cs.length
decreasing_by
  have hb := congrArg List.length (eq_of_cutAtGap _h)
  have ht := length_trimStart_le cs
  simp only [List.length_append, List.length_cons] at hb
  omega

/-- The key and the value of a line. A line without a colon has an empty key. -/
def property (cs : List Char) : List Char × List Char :=
  match Text.cutAt ':' cs with
  | some (key, value) => (Text.trim key, Text.trim value)
  | none => ([], Text.trim cs)

def properties (cs : List Char) : List (List Char × List Char) := (lines cs).map property

end Table
end Telemetry
