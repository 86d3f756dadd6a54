import Mathlib.Control.Basic
import Mathlib.Data.List.Forall2
/-!
Readings that can fail.

What is read item by item is read as a whole exactly if every item is. Otherwise the first item that
cannot be read gives the error, and nothing behind it is looked at.
-/

namespace Telemetry

theorem Except.mapError_eq_ok_iff {ε δ α : Type} {f : ε → δ} {x : Except ε α} {a : α} :
    x.mapError f = .ok a ↔ x = .ok a := by
  cases x with
  | error e => exact ⟨nofun, nofun⟩
  | ok b => exact ⟨fun h => congrArg Except.ok (Except.ok.inj h), fun h => h ▸ rfl⟩

theorem Except.map_eq_ok_iff {ε α β : Type} {f : α → β} {x : Except ε α} {b : β} :
    x.map f = .ok b ↔ ∃ a, x = .ok a ∧ b = f a := by
  cases x with
  | error e => exact ⟨nofun, nofun⟩
  | ok a =>
      constructor
      · intro h
        exact ⟨a, rfl, (Except.ok.inj h).symm⟩
      · rintro ⟨_, h, rfl⟩
        cases h
        rfl

theorem Except.map_eq_error_iff {ε α β : Type} {f : α → β} {x : Except ε α} {e : ε} :
    x.map f = .error e ↔ x = .error e := by
  cases x with
  | error d => exact ⟨fun h => congrArg Except.error (Except.error.inj h), fun h => h ▸ rfl⟩
  | ok a => exact ⟨nofun, nofun⟩

theorem Except.mapError_eq_error_iff {ε δ α : Type} {f : ε → δ} {x : Except ε α} {d : δ} :
    x.mapError f = .error d ↔ ∃ e, x = .error e ∧ d = f e := by
  cases x with
  | error e =>
      constructor
      · intro h
        exact ⟨e, rfl, (Except.error.inj h).symm⟩
      · rintro ⟨_, h, rfl⟩
        cases h
        rfl
  | ok a => exact ⟨nofun, nofun⟩

theorem Except.bind_eq_ok_iff {ε α β : Type} {x : Except ε α} {f : α → Except ε β} {b : β} :
    (x >>= f) = .ok b ↔ ∃ a, x = .ok a ∧ f a = .ok b := by
  cases x with
  | error e => exact ⟨nofun, nofun⟩
  | ok a =>
      constructor
      · intro h
        exact ⟨a, rfl, h⟩
      · rintro ⟨_, h, hb⟩
        cases h
        exact hb

theorem Except.exists_eq_ok_iff {ε α : Type} {x : Except ε α} :
    (∃ a, x = .ok a) ↔ ¬ ∃ e, x = .error e := by
  cases x with
  | error e => exact ⟨nofun, fun h => absurd ⟨e, rfl⟩ h⟩
  | ok a => exact ⟨fun _ => nofun, fun _ => ⟨a, rfl⟩⟩

section Items

variable {ε α β : Type} {f : α → Except ε β} {a : α} {b : β} {e : ε} {as : List α}

theorem mapM_cons_ok (h : f a = .ok b) : (a :: as).mapM f = (as.mapM f).map (b :: ·) := by
  rw [List.mapM_cons, h]
  cases as.mapM f <;> rfl

theorem mapM_cons_error (h : f a = .error e) : (a :: as).mapM f = .error e := by
  rw [List.mapM_cons, h]
  rfl

theorem mapM_eq_ok_iff {bs : List β} :
    as.mapM f = .ok bs ↔ List.Forall₂ (fun a b => f a = .ok b) as bs := by
  induction as generalizing bs with
  | nil =>
      rw [List.forall₂_nil_left_iff]
      exact ⟨fun h => (Except.ok.inj h).symm, fun h => congrArg Except.ok h.symm⟩
  | cons a as ih =>
      rw [List.forall₂_cons_left_iff]
      cases ha : f a with
      | ok b =>
          rw [mapM_cons_ok ha, Except.map_eq_ok_iff]
          constructor
          · rintro ⟨bs', h, rfl⟩
            exact ⟨b, bs', rfl, ih.1 h, rfl⟩
          · rintro ⟨b', bs', hb, h, rfl⟩
            cases hb
            exact ⟨bs', ih.2 h, rfl⟩
      | error e =>
          rw [mapM_cons_error ha]
          exact ⟨nofun, fun ⟨b, _, hb, _⟩ => nomatch hb⟩

/-- The error is that of the first item that has one. -/
theorem mapM_eq_error_iff :
    as.mapM f = .error e ↔
      ∃ before a behind, as = before ++ a :: behind ∧ (∀ a' ∈ before, ∃ b, f a' = .ok b) ∧
        f a = .error e := by
  induction as with
  | nil =>
      refine ⟨nofun, ?_⟩
      rintro ⟨before, a, behind, h, -⟩
      exact absurd h.symm (List.append_ne_nil_of_right_ne_nil before (List.cons_ne_nil a behind))
  | cons a as ih =>
      constructor
      · intro h
        cases ha : f a with
        | ok b =>
            rw [mapM_cons_ok ha, Except.map_eq_error_iff, ih] at h
            obtain ⟨before, a', behind, rfl, hb, he⟩ := h
            exact ⟨a :: before, a', behind, rfl, List.forall_mem_cons.2 ⟨⟨b, ha⟩, hb⟩, he⟩
        | error e' =>
            rw [mapM_cons_error ha] at h
            cases h
            exact ⟨[], a, as, rfl, nofun, ha⟩
      · rintro ⟨before, a', behind, hs, hb, he⟩
        cases before with
        | nil =>
            cases hs
            exact mapM_cons_error he
        | cons c before =>
            cases hs
            obtain ⟨⟨b, hb'⟩, hb⟩ := List.forall_mem_cons.1 hb
            rw [mapM_cons_ok hb', Except.map_eq_error_iff]
            exact ih.2 ⟨before, a', behind, rfl, hb, he⟩

theorem exists_mapM_iff : (∃ bs, as.mapM f = .ok bs) ↔ ∀ a ∈ as, ∃ b, f a = .ok b := by
  constructor
  · rintro ⟨bs, h⟩
    induction mapM_eq_ok_iff.1 h with
    | nil => exact nofun
    | cons hb hbs ih => exact List.forall_mem_cons.2 ⟨⟨_, hb⟩, ih (mapM_eq_ok_iff.2 hbs)⟩
  · intro h
    cases hm : as.mapM f with
    | ok bs => exact ⟨bs, rfl⟩
    | error e =>
        obtain ⟨before, a, behind, rfl, -, he⟩ := mapM_eq_error_iff.1 hm
        obtain ⟨b, hb⟩ := h a (List.mem_append_right before List.mem_cons_self)
        exact nomatch hb.symm.trans he

end Items

end Telemetry
