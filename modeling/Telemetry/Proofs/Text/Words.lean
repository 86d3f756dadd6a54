import Telemetry.Proofs.Text.Cutting
/-!
Words between breaks.

A text can be cut at any break without cutting a word, and everything else follows from that. The
words of a text are the only ones it can be written with, so the relation between words and texts
that writes them decides what is read, as well as the function that reads them.
-/

namespace Telemetry
namespace Text

def Breaks (cs : List Char) : Prop := ∀ c ∈ cs, isWordBreak c = true

def IsWord (cs : List Char) : Prop := cs ≠ [] ∧ ∀ c ∈ cs, isWordBreak c = false

/-- The text is empty or begins with a break, so that it does not go on with a word before it. -/
def Parts (cs : List Char) : Prop := ∀ c ∈ cs.head?, isWordBreak c = true

/-- The text is made of the words, with breaks before, between and behind them. -/
inductive Worded : List (List Char) → List Char → Prop
  | nil {gap : List Char} (breaks : Breaks gap) : Worded [] gap
  | cons {gap word rest : List Char} {ws : List (List Char)} (breaks : Breaks gap)
      (isWord : IsWord word) (parts : Parts rest) (worded : Worded ws rest) :
      Worded (word :: ws) (gap ++ word ++ rest)

/-! ## Cutting at breaks -/

theorem pieces_append_sep {sep : Char → Bool} {c : Char} (hc : sep c = true) (a b : List Char) :
    pieces sep (a ++ c :: b) = pieces sep a ++ pieces sep b := by
  induction a with
  | nil => simp [pieces, hc]
  | cons d a ih =>
      by_cases hd : sep d = true
      · simp [pieces, hd, ih]
      · obtain ⟨p, ps, hp⟩ := List.exists_cons_of_ne_nil (pieces_ne_nil sep a)
        simp [pieces, hd, ih, hp, consFirst]

theorem words_append_break {c : Char} (hc : isWordBreak c = true) (a b : List Char) :
    words (a ++ c :: b) = words a ++ words b := by
  unfold words
  rw [pieces_append_sep hc, List.filter_append]

theorem words_nil : words [] = [] := rfl

theorem words_breaks_append {gap : List Char} (h : Breaks gap) (cs : List Char) :
    words (gap ++ cs) = words cs := by
  induction gap with
  | nil => rfl
  | cons c gap ih =>
      have hc := words_append_break (h c List.mem_cons_self) [] (gap ++ cs)
      rw [List.cons_append, ← ih fun d hd => h d (List.mem_cons_of_mem c hd)]
      rwa [List.nil_append, words_nil, List.nil_append] at hc

theorem words_breaks {gap : List Char} (h : Breaks gap) : words gap = [] := by
  have hw := words_breaks_append h []
  rwa [List.append_nil, words_nil] at hw

/-- What parts from the words before it adds its own words to them. -/
theorem words_append {rest : List Char} (h : Parts rest) (cs : List Char) :
    words (cs ++ rest) = words cs ++ words rest := by
  cases rest with
  | nil => rw [List.append_nil, words_nil, List.append_nil]
  | cons c rest =>
      have hc : isWordBreak c = true := h c rfl
      have hr := words_append_break hc [] rest
      rw [words_append_break hc cs rest]
      rw [List.nil_append, words_nil, List.nil_append] at hr
      rw [hr]

theorem words_word {word : List Char} (h : IsWord word) : words word = [word] := by
  have hp : pieces isWordBreak word = [word] := by
    obtain ⟨-, hw⟩ := h
    induction word with
    | nil => rfl
    | cons c word ih =>
        rw [pieces, hw c List.mem_cons_self, if_neg Bool.false_ne_true,
          ih fun d hd => hw d (List.mem_cons_of_mem c hd)]
        rfl
  unfold words
  rw [hp, List.filter_cons, List.isEmpty_eq_false_iff.2 h.1]
  rfl

theorem isWord_of_not_blank {cs : List Char} (hn : cs ≠ []) (h : ∀ c ∈ cs, isBlank c = false) :
    IsWord cs := by
  refine ⟨hn, fun c hc => Bool.eq_false_iff.2 fun hb => ?_⟩
  exact Bool.false_ne_true ((h c hc).symm.trans (isBlank_of_isWordBreak hb))

/-! ## Words and the texts that write them -/

theorem words_of_worded {ws : List (List Char)} {cs : List Char} (h : Worded ws cs) :
    words cs = ws := by
  induction h with
  | nil breaks => exact words_breaks breaks
  | cons breaks isWord parts worded ih =>
      rw [words_append parts, words_breaks_append breaks, words_word isWord, ih]
      rfl

/-- A break in front belongs to no word. Any other character begins the first word or is one. -/
theorem Worded.push {ws : List (List Char)} {cs : List Char} (h : Worded ws cs) (c : Char) :
    ∃ ws', Worded ws' (c :: cs) := by
  by_cases hc : isWordBreak c = true
  · have wider {gap : List Char} (h : Breaks gap) : Breaks (c :: gap) :=
      List.forall_mem_cons.2 ⟨hc, h⟩
    cases h with
    | nil breaks => exact ⟨[], .nil (wider breaks)⟩
    | cons breaks isWord parts worded => exact ⟨_, .cons (wider breaks) isWord parts worded⟩
  · have hc : isWordBreak c = false := Bool.eq_false_iff.2 hc
    have hword : IsWord [c] := ⟨List.cons_ne_nil c [], List.forall_mem_singleton.2 hc⟩
    have none : Breaks [] := nofun
    have alone {ws : List (List Char)} {cs : List Char} (hp : Parts cs) (h : Worded ws cs) :
        Worded ([c] :: ws) (c :: cs) := .cons none hword hp h
    cases h with
    | nil breaks => exact ⟨_, alone (fun d hd => breaks d (List.mem_of_mem_head? hd)) (.nil breaks)⟩
    | @cons gap word rest _ breaks isWord parts worded =>
        cases gap with
        | nil =>
            have hlonger : IsWord (c :: word) :=
              ⟨List.cons_ne_nil c word, List.forall_mem_cons.2 ⟨hc, isWord.2⟩⟩
            exact ⟨_, .cons none hlonger parts worded⟩
        | cons d gap =>
            refine ⟨_, alone (fun e he => ?_) (.cons breaks isWord parts worded)⟩
            cases he
            exact breaks d List.mem_cons_self

theorem worded_words (cs : List Char) : Worded (words cs) cs := by
  have hw : ∃ ws, Worded ws cs := by
    induction cs with
    | nil => exact ⟨[], .nil nofun⟩
    | cons c cs ih =>
        obtain ⟨ws, h⟩ := ih
        exact h.push c
  obtain ⟨ws, h⟩ := hw
  rw [words_of_worded h]
  exact h

/-- Words are read exactly from the texts that are made of them. -/
theorem words_eq_iff {cs : List Char} {ws : List (List Char)} : words cs = ws ↔ Worded ws cs := by
  constructor
  · rintro rfl
    exact worded_words cs
  · exact words_of_worded

theorem Parts.front {a b : List Char} (h : Parts (a ++ b)) : Parts a :=
  fun c hc => h c (mem_head?_append hc b)

/-- Behind each of its words a text can be cut off without a change to the words up to there. -/
theorem Worded.split {ws vs : List (List Char)} {w cs : List Char} (h : Worded (ws ++ w :: vs) cs) :
    ∃ front rest, cs = front ++ w ++ rest ∧ Parts rest ∧ words (front ++ w) = ws ++ [w] := by
  induction ws generalizing cs with
  | nil =>
      cases h with
      | @cons gap _ rest _ breaks isWord parts worded =>
          refine ⟨gap, rest, rfl, parts, ?_⟩
          rw [words_breaks_append breaks, words_word isWord, List.nil_append]
  | cons u ws ih =>
      cases h with
      | @cons gap _ _ _ breaks isWord parts worded =>
          obtain ⟨front, rest, rfl, hrest, hwords⟩ := ih worded
          refine ⟨gap ++ u ++ front, rest, by simp only [List.append_assoc], hrest, ?_⟩
          rw [List.append_assoc, words_append parts.front, words_breaks_append breaks,
            words_word isWord, hwords]
          rfl

theorem words_append_ne_nil {word : List Char} (h : IsWord word) (gap rest : List Char) :
    words (gap ++ word ++ rest) ≠ [] := by
  intro hn
  have worded := worded_words (gap ++ word ++ rest)
  rw [hn] at worded
  cases worded with
  | nil breaks =>
      obtain ⟨c, word, rfl⟩ := List.exists_cons_of_ne_nil h.1
      have hc := breaks c (List.mem_append_left rest (List.mem_append_right gap List.mem_cons_self))
      exact Bool.false_ne_true ((h.2 c List.mem_cons_self).symm.trans hc)

/-- A text does not lose words when it goes on. -/
theorem length_words_le_append (cs more : List Char) :
    (words cs).length ≤ (words (cs ++ more)).length := by
  have worded := worded_words cs
  generalize words cs = ws at worded
  induction worded with
  | nil breaks => exact Nat.zero_le _
  | @cons gap word rest ws breaks isWord parts worded ih =>
      cases rest with
      | nil =>
          cases words_of_worded worded
          rw [List.append_nil]
          exact List.length_pos_of_ne_nil (words_append_ne_nil isWord gap more)
      | cons c rest =>
          have parts : Parts (c :: rest ++ more) := parts
          rw [List.append_assoc, words_append parts, words_breaks_append breaks, words_word isWord]
          exact Nat.succ_le_succ ih

end Text
end Telemetry
