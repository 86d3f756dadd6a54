/-!
Runs of a machine that takes one step for each input.

A machine is its step: from a state and an input to the next state, where the input is possible. A
run keeps its whole past, every input with the state that it met, so that what was done on the way
can be read off it later.
-/

namespace Telemetry

inductive Run {S M : Type} (step : S → M → Option S) (first : S) : List (S × M) → S → Prop where
  | start : Run step first [] first
  | next {past : List (S × M)} {s t : S} {m : M} (before : Run step first past s)
      (enabled : step s m = some t) : Run step first (past ++ [(s, m)]) t

namespace Run

variable {S M : Type} {step : S → M → Option S}

/-- A run from the end of another one continues it. -/
theorem trans {first middle last : S} {past future : List (S × M)}
    (h : Run step first past middle) (k : Run step middle future last) :
    Run step first (past ++ future) last := by
  induction k with
  | start => simpa using h
  | next _ enabled ih =>
      rw [← List.append_assoc]
      exact ih.next enabled

/-- A state that was met on the way is the end of a run of its own. -/
theorem before {first last s : S} {past former later : List (S × M)} {m : M}
    (h : Run step first past last) (hp : past = former ++ (s, m) :: later) :
    Run step first former s := by
  induction h generalizing later with
  | start => simp at hp
  | @next past' s' t' m' before enabled ih =>
      rcases List.eq_nil_or_concat later with rfl | ⟨later', x, rfl⟩
      · obtain ⟨rfl, hx⟩ := List.append_inj' hp rfl
        cases hx
        exact before
      · rw [List.concat_eq_append, ← List.cons_append, ← List.append_assoc] at hp
        exact ih (List.append_inj' hp rfl).1

theorem last {first s t : S} {past : List (S × M)} {m : M}
    (h : Run step first (past ++ [(s, m)]) t) : step s m = some t := by
  generalize hp : past ++ [(s, m)] = whole at h
  cases h with
  | start => simp at hp
  | next _ enabled =>
      obtain ⟨-, hx⟩ := List.append_inj' hp rfl
      cases hx
      exact enabled

theorem enabled_of_mem {first s : S} {past : List (S × M)} {x : S × M}
    (h : Run step first past s) (hx : x ∈ past) : ∃ t, step x.1 x.2 = some t := by
  induction h with
  | start => exact absurd hx List.not_mem_nil
  | @next past u v m before enabled ih =>
      rcases List.mem_append.1 hx with hx | hx
      · exact ih hx
      · rw [List.mem_singleton.1 hx]
        exact ⟨v, enabled⟩

/-- Moves that change nothing can be left out. -/
theorem filter {first last : S} {past : List (S × M)} {keep : S × M → Bool}
    (h : Run step first past last)
    (still : ∀ {s m t}, step s m = some t → keep (s, m) = false → t = s) :
    Run step first (past.filter keep) last := by
  induction h with
  | start => exact .start
  | @next past s t m before enabled ih =>
      rw [List.filter_append]
      cases hk : keep (s, m) with
      | true =>
          rw [List.filter_cons_of_pos hk]
          exact ih.next enabled
      | false =>
          rw [List.filter_cons_of_neg (Bool.eq_false_iff.1 hk), List.filter_nil, List.append_nil,
            still enabled hk]
          exact ih

/-- A machine that can always make a move can make any sequence of them. -/
theorem exists_moves (total : ∀ s m, ∃ t, step s m = some t) (s : S) (moves : List M) :
    ∃ past t, Run step s past t ∧ past.map Prod.snd = moves := by
  induction moves generalizing s with
  | nil => exact ⟨[], s, .start, rfl⟩
  | cons m moves ih =>
      obtain ⟨t, ht⟩ := total s m
      obtain ⟨past, u, h, rfl⟩ := ih t
      exact ⟨(s, m) :: past, u, (Run.start.next ht).trans h, rfl⟩

/-- The run that makes these moves, with its past and its end, if each of them can be made. -/
def follow (step : S → M → Option S) (s : S) : List M → Option (List (S × M) × S)
  | [] => some ([], s)
  | m :: moves =>
    (step s m).bind fun t => (follow step t moves).map fun run => ((s, m) :: run.1, run.2)

theorem of_follow {moves : List M} {s t : S} {past : List (S × M)}
    (h : follow step s moves = some (past, t)) : Run step s past t := by
  induction moves generalizing s past with
  | nil =>
      cases h
      exact .start
  | cons m moves ih =>
      obtain ⟨u, hu, h⟩ := Option.bind_eq_some_iff.1 h
      obtain ⟨run, hr, ht⟩ := Option.map_eq_some_iff.1 h
      cases ht
      exact (Run.start.next hu).trans (ih hr)

theorem follow_concat {moves : List M} {s t u : S} {past : List (S × M)} {m : M}
    (h : follow step s moves = some (past, t)) (enabled : step t m = some u) :
    follow step s (moves ++ [m]) = some (past ++ [(t, m)], u) := by
  induction moves generalizing s past with
  | nil =>
      cases h
      simp [follow, enabled]
  | cons n moves ih =>
      obtain ⟨v, hv, h⟩ := Option.bind_eq_some_iff.1 h
      obtain ⟨run, hr, ht⟩ := Option.map_eq_some_iff.1 h
      cases ht
      rw [List.cons_append, follow, hv, Option.bind_some, ih hr]
      rfl

/-- A run is made by its own moves. -/
theorem follow_of {s t : S} {past : List (S × M)} (h : Run step s past t) :
    follow step s (past.map Prod.snd) = some (past, t) := by
  induction h with
  | start => rfl
  | next _ enabled ih =>
      rw [List.map_append]
      exact follow_concat ih enabled

/-- The moves of a run determine it. -/
theorem unique {s t t' : S} {past past' : List (S × M)} (h : Run step s past t)
    (k : Run step s past' t') (hm : past'.map Prod.snd = past.map Prod.snd) :
    past' = past ∧ t' = t := by
  have hf := follow_of k
  rw [hm, follow_of h] at hf
  cases hf
  exact ⟨rfl, rfl⟩

end Run
end Telemetry
