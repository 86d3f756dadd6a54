import Mathlib.Data.String.Basic
import Telemetry.Proofs.Text.Cutting
/-!
Cutting at offsets in bytes.

A text can be cut between two of its characters only. The offset of a character that occurs in it is
such a place, and so is the offset one byte further if the character has one byte. The parts between
these offsets are those that cutting at the characters gives.
-/

namespace Telemetry
namespace Text

/-- The offset of the first `c`. -/
def offset? (c : Char) : List Char → Option Nat
  | [] => none
  | d :: cs => if d = c then some 0 else (offset? c cs).map (d.utf8Size + ·)

/-- The offset of the last `c`. -/
def lastOffset? (c : Char) : List Char → Option Nat
  | [] => none
  | d :: cs =>
    match lastOffset? c cs with
    | some i => some (d.utf8Size + i)
    | none => if d = c then some 0 else none

/-- The part of a text between two offsets. There is none if one of them lies beyond the end or
inside a character, or if they stand in the wrong order. -/
def slice? (s : String) (start stop : Nat) : Option String := do
  let p ← s.pos? ⟨start⟩
  let q ← s.pos? ⟨stop⟩
  let part ← s.slice? p q
  return part.copy

def size (cs : List Char) : Nat := (String.ofList cs).utf8ByteSize

theorem size_append (a b : List Char) : size (a ++ b) = size a + size b := by
  rw [size, String.ofList_append, String.utf8ByteSize_append]
  rfl

theorem size_cons (c : Char) (cs : List Char) : size (c :: cs) = c.utf8Size + size cs := by
  rw [← List.singleton_append, size_append]
  congr 1
  exact String.utf8ByteSize_singleton

theorem offset?_eq (c : Char) (cs : List Char) :
    offset? c cs = (cutAt c cs).map fun (a, _) => size a := by
  induction cs with
  | nil => rfl
  | cons d cs ih =>
      rw [offset?, cutAt, ih]
      split
      · rfl
      · rw [Option.map_map, Option.map_map]
        exact congrArg (Option.map · _) (funext fun p => (size_cons d p.1).symm)

theorem lastOffset?_eq (c : Char) (cs : List Char) :
    lastOffset? c cs = (cutAtLast c cs).map fun (a, _) => size a := by
  induction cs with
  | nil => rfl
  | cons d cs ih =>
      rw [lastOffset?, ih]
      cases hl : cutAtLast c cs with
      | some p =>
          obtain ⟨rfl, hb⟩ := cutAtLast_eq_some_iff.1 hl
          have hd : cutAtLast c (d :: (p.1 ++ c :: p.2)) = some (d :: p.1, p.2) :=
            cutAtLast_eq_some_iff.2 ⟨rfl, hb⟩
          rw [hd]
          exact congrArg some (size_cons d p.1).symm
      | none =>
          have hn := cutAtLast_eq_none_iff.1 hl
          by_cases hd : d = c
          · have hf : cutAtLast c (d :: cs) = some ([], cs) :=
              cutAtLast_eq_some_iff.2 ⟨by rw [hd, List.nil_append], hn⟩
            rw [hf]
            exact if_pos hd
          · have hf : cutAtLast c (d :: cs) = none :=
              cutAtLast_eq_none_iff.2 (List.not_mem_cons_of_ne_of_not_mem (Ne.symm hd) hn)
            rw [hf]
            exact if_neg hd

theorem pos?_eq {s : String} {p : String.Pos.Raw} (h : p.IsValid s) :
    s.pos? p = some (s.pos p h) := by
  have hs := String.Pos.Raw.isValidForSlice_eq_true_iff.2
    (String.Pos.Raw.isValidForSlice_toSlice_iff.2 h)
  unfold String.pos? String.Slice.pos?
  rw [dif_pos hs]
  rfl

/-- Any part of a text is cut out at the offsets of its ends. -/
theorem slice?_append (a m b : List Char) :
    slice? (String.ofList (a ++ m ++ b)) (size a) (size (a ++ m)) = some (String.ofList m) := by
  have hfirst : String.ofList (a ++ m) = String.ofList a ++ String.ofList m := String.ofList_append
  have hsecond : String.ofList (a ++ m ++ b) = String.ofList (a ++ m) ++ String.ofList b :=
    String.ofList_append
  have hrest : String.ofList (a ++ m ++ b) =
      String.ofList a ++ (String.ofList m ++ String.ofList b) := by
    rw [hsecond, hfirst, String.append_assoc]
  have hstart : String.Pos.Raw.IsValid (String.ofList (a ++ m ++ b)) ⟨size a⟩ :=
    String.Pos.Raw.isValid_iff_exists_append.2 ⟨_, _, hrest, rfl⟩
  have hstop : String.Pos.Raw.IsValid (String.ofList (a ++ m ++ b)) ⟨size (a ++ m)⟩ :=
    String.Pos.Raw.isValid_iff_exists_append.2 ⟨_, _, hsecond, rfl⟩
  obtain ⟨hle, hcopy⟩ := String.copy_slice_eq_iff_splits.2 ⟨String.ofList a, String.ofList b,
    (⟨hrest, rfl⟩ : (String.pos _ _ hstart).Splits _ _),
    (⟨hfirst ▸ hsecond, congrArg String.rawEndPos hfirst⟩ : (String.pos _ _ hstop).Splits _ _)⟩
  unfold slice?
  rw [pos?_eq hstart, pos?_eq hstop]
  show (String.slice? _ _ _).bind _ = _
  unfold String.slice?
  rw [dif_pos hle]
  exact congrArg some hcopy

example : slice? "aäb" 1 3 = some "ä" := by decide +kernel

example : slice? "aäb" 1 2 = none := by decide +kernel

end Text
end Telemetry
