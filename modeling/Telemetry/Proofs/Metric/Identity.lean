import Mathlib.Logic.Function.Basic
import Telemetry.Run
import Telemetry.Shelf
/-!
When two metrics are the same.

The order of tags is linear, so the sorted tags of two sets are equal exactly if the sets are
permutations of each other, repeated tags counted. Two metrics are the same exactly if their names
are equal and their tags are permutations of each other; this does not depend on how the metrics got
into memory. Each handle has the metric that it would have if no two handles ever shared one, so
handles that lead to one place have the same metric, and nothing else needs to be looked at.
-/

namespace Telemetry

/-! ## Tags in order -/

namespace Tag

instance : Std.TransCmp order :=
  inferInstanceAs (Std.TransCmp (compareLex (compareOn Tag.name) (compareOn Tag.value)))

theorem eq_of_order_eq {a b : Tag} (h : a.order b = .eq) : a = b := by
  obtain ⟨hn, hv⟩ := Ordering.then_eq_eq.1 h
  cases a
  cases b
  congr
  · exact Std.LawfulEqOrd.eq_of_compare hn
  · exact Std.LawfulEqOrd.eq_of_compare hv

instance : Std.LawfulEqCmp order where
  eq_of_compare := eq_of_order_eq

/-- Not behind the other tag. -/
def le (a b : Tag) : Bool := a.order b != .gt

theorem le_iff {a b : Tag} : a.le b = true ↔ (a.order b).isLE = true := by
  unfold le
  cases a.order b <;> decide

theorem le_trans (a b c : Tag) (hab : a.le b = true) (hbc : b.le c = true) : a.le c = true :=
  le_iff.2 (Std.TransCmp.isLE_trans (le_iff.1 hab) (le_iff.1 hbc))

theorem le_total (a b : Tag) : (a.le b || b.le a) = true := by
  have swap : b.order a = (a.order b).swap := Std.OrientedCmp.eq_swap
  unfold le
  rw [swap]
  cases a.order b <;> rfl

theorem le_antisymm {a b : Tag} (hab : a.le b = true) (hba : b.le a = true) : a = b :=
  eq_of_order_eq (Std.OrientedCmp.isLE_antisymm (le_iff.1 hab) (le_iff.1 hba))

end Tag

namespace Tags

theorem sorted_perm (t : Tags) : t.sorted.Perm t.list := List.mergeSort_perm _ _

theorem sorted_pairwise (t : Tags) : t.sorted.Pairwise fun a b => a.le b = true :=
  List.pairwise_mergeSort Tag.le_trans Tag.le_total t.list

theorem sorted_eq_iff {a b : Tags} : a.sorted = b.sorted ↔ a.list.Perm b.list := by
  constructor
  · intro h
    exact a.sorted_perm.symm.trans (h ▸ b.sorted_perm)
  · intro h
    have perm : a.sorted.Perm b.sorted := a.sorted_perm.trans (h.trans b.sorted_perm.symm)
    exact perm.eq_of_pairwise (fun _ _ _ _ => Tag.le_antisymm) a.sorted_pairwise b.sorted_pairwise

/-- The number of tags is only compared to save sorting them. -/
theorem same_iff_perm {a b : Tags} : a.same b = true ↔ a.list.Perm b.list := by
  simp only [same, Bool.and_eq_true, beq_iff_eq, sorted_eq_iff, and_iff_right_iff_imp]
  exact List.Perm.length_eq

theorem same_equivalence : Equivalence fun a b : Tags => a.same b = true where
  refl a := same_iff_perm.2 (.refl a.list)
  symm h := same_iff_perm.2 (same_iff_perm.1 h).symm
  trans h k := same_iff_perm.2 ((same_iff_perm.1 h).trans (same_iff_perm.1 k))

theorem same_add (a b : Tags) (tag : Tag) : (a.add tag).same (b.add tag) = a.same b := by
  rw [Bool.eq_iff_iff, same_iff_perm, same_iff_perm]
  exact List.perm_append_right_iff [tag]

/-- The names of the tags differ from each other. -/
def Distinct (t : Tags) : Prop := (t.list.map (·.name)).Nodup

instance (t : Tags) : Decidable t.Distinct := inferInstanceAs (Decidable (List.Nodup _))

/-- If the names differ, the first tag with a name is the only one. -/
theorem get?_eq_some_iff {t : Tags} (h : t.Distinct) {name value : String} :
    t.get? name = some value ↔ ⟨name, value⟩ ∈ t.list := by
  obtain ⟨tags⟩ := t
  unfold get?
  induction tags with
  | nil => simp
  | cons tag tags ih =>
      obtain ⟨hn, hd⟩ := List.nodup_cons.1 h
      by_cases he : tag.name = name
      · subst he
        have none : ∀ v, ⟨tag.name, v⟩ ∉ tags := fun v hv => hn (List.mem_map.2 ⟨_, hv, rfl⟩)
        rw [List.find?_cons_of_pos (by simp), List.mem_cons, or_iff_left (none value)]
        cases tag
        simp [eq_comm]
      · rw [List.find?_cons_of_neg (by simpa using he), ih hd, List.mem_cons]
        refine (or_iff_right ?_).symm
        rintro rfl
        exact he rfl

theorem distinct_of_perm {a b : Tags} (h : a.list.Perm b.list) (ha : a.Distinct) : b.Distinct :=
  (h.map _).nodup_iff.1 ha

theorem get?_congr {a b : Tags} (h : a.same b = true) (ha : a.Distinct) (name : String) :
    a.get? name = b.get? name := by
  have perm := same_iff_perm.1 h
  ext value
  rw [get?_eq_some_iff ha, get?_eq_some_iff (distinct_of_perm perm ha)]
  exact perm.mem_iff

end Tags

/-! ## Metrics -/

namespace Metric

theorem same_iff_perm {m n : Metric} :
    m.same n = true ↔ m.name = n.name ∧ m.tags.list.Perm n.tags.list := by
  simp only [same, Bool.and_eq_true, beq_iff_eq, Tags.same_iff_perm]

theorem same_equivalence : Equivalence fun m n : Metric => m.same n = true where
  refl m := same_iff_perm.2 ⟨rfl, .refl _⟩
  symm h := by
    obtain ⟨name, tags⟩ := same_iff_perm.1 h
    exact same_iff_perm.2 ⟨name.symm, tags.symm⟩
  trans h k := by
    obtain ⟨name, tags⟩ := same_iff_perm.1 h
    obtain ⟨name', tags'⟩ := same_iff_perm.1 k
    exact same_iff_perm.2 ⟨name.trans name', tags.trans tags'⟩

theorem same_withTag (m n : Metric) (tag : Tag) :
    (m.withTag tag).same (n.withTag tag) = m.same n := by
  show (m.name == n.name && (m.tags.add tag).same (n.tags.add tag)) = _
  rw [Tags.same_add]
  rfl

end Metric

/-! ## Handles -/

/-- What each handle would have if it kept a metric of its own. -/
abbrev Owned := String → Option Metric

namespace Shelf

def Move.own : Move → Owned → Owned
  | .create handle name, owned => Function.update owned handle (some (.ofName name))
  | .share handle source, owned => Function.update owned handle (owned source)
  | .edit handle e, owned => Function.update owned handle ((owned handle).map fun m => m.edit e)
  | .release handle, owned => Function.update owned handle none

theorem lookup_release (handles : List (String × Nat)) (handle other : String) :
    (handles.filter fun h => h.1 != handle).lookup other =
      if other = handle then none else handles.lookup other := by
  induction handles with
  | nil => simp
  | cons h handles ih =>
      obtain ⟨name, place⟩ := h
      by_cases he : name = handle
      · subst he
        rw [List.filter_cons_of_neg (by simp), ih]
        split
        · rfl
        · rename_i ho
          rw [List.lookup_cons, beq_eq_false_iff_ne.2 ho]
      · rw [List.filter_cons_of_pos (by simpa using he), List.lookup_cons, List.lookup_cons, ih]
        by_cases ho : other = name
        · subst ho
          simp [he]
        · simp [beq_eq_false_iff_ne.2 ho]

theorem metric?_release (s : Shelf) (handle : String) :
    (s.release handle).metric? = Function.update s.metric? handle none := by
  funext other
  unfold metric? place? release
  rw [lookup_release, Function.update_apply]
  split <;> rfl

theorem metric?_lead (s : Shelf) (handle : String) (place : Nat) (h : place < s.places.length) :
    (s.lead handle place h).metric? = Function.update s.metric? handle s.places[place]? := by
  funext other
  unfold metric? place? lead release
  rw [List.lookup_cons, lookup_release, Function.update_apply]
  by_cases ho : other = handle
  · simp [ho]
  · simp [ho, beq_eq_false_iff_ne.2 ho]

theorem metric?_eq {s : Shelf} {handle : String} {place : Nat} (h : s.place? handle = some place) :
    s.metric? handle = s.places[place]? := by
  rw [metric?, h, Option.bind_some]

theorem metric?_lay (s : Shelf) (m : Metric) : (s.lay m).metric? = s.metric? := by
  funext handle
  cases h : s.place? handle with
  | none => simp [metric?, show (s.lay m).place? handle = none from h, h]
  | some place =>
      rw [metric?_eq h, metric?_eq (s := s.lay m) h]
      exact List.getElem?_append_left (place_lt h)

theorem metric?_put (s : Shelf) (handle : String) (m : Metric) :
    (s.put handle m).metric? = Function.update s.metric? handle (some m) := by
  unfold put
  rw [metric?_lead, metric?_lay]
  simp [lay]

theorem place?_ne_of_alone {s : Shelf} {handle other : String} {place : Nat}
    (alone : s.isShared handle place = false) (ho : other ≠ handle) :
    s.place? other ≠ some place := by
  intro h
  obtain ⟨before, after, hs, -⟩ := List.lookup_eq_some_iff.1 h
  refine Bool.eq_false_iff.1 alone (List.any_eq_true.2 ⟨(other, place), ?_, ?_⟩)
  · simp [hs]
  · simpa using ho

/-- No other handle sees what is written over a metric to which only one handle leads. -/
theorem metric?_overwrite {s : Shelf} {handle : String} {place : Nat} {m : Metric}
    (h : s.place? handle = some place) (alone : s.isShared handle place = false) :
    (s.overwrite place m).metric? = Function.update s.metric? handle (some m) := by
  funext other
  rw [Function.update_apply]
  split
  · next ho =>
      rw [ho, metric?_eq (s := s.overwrite place m) h]
      exact List.getElem?_set_self (place_lt h)
  · next ho =>
      cases hp : s.place? other with
      | none => simp [metric?, show (s.overwrite place m).place? other = none from hp, hp]
      | some place' =>
          rw [metric?_eq hp, metric?_eq (s := s.overwrite place m) hp]
          refine List.getElem?_set_ne ?_
          rintro rfl
          exact place?_ne_of_alone alone ho hp

theorem metric?_step {s t : Shelf} {m : Move} (h : s.step m = some t) :
    t.metric? = m.own s.metric? := by
  cases m with
  | create handle name =>
      cases h
      exact metric?_put s handle (.ofName name)
  | share handle source =>
      simp only [step, share?] at h
      split at h
      · cases h
      · next place hp =>
          cases h
          rw [metric?_lead, Move.own, metric?_eq hp]
  | edit handle e =>
      simp only [step, edit?] at h
      obtain ⟨place, hp, h⟩ := Option.bind_eq_some_iff.1 h
      obtain ⟨m, hm, h⟩ := Option.bind_eq_some_iff.1 h
      rw [Move.own, metric?_eq hp, hm]
      split at h
      · cases h
        exact metric?_put s handle (m.edit e)
      · next alone =>
          cases h
          exact metric?_overwrite hp (Bool.eq_false_iff.2 alone)
  | release handle =>
      obtain ⟨place, -, rfl⟩ := Option.map_eq_some_iff.1 h
      exact metric?_release s handle

/-- Every handle has the metric that the moves on it, and on those it was cloned from, give it. -/
theorem run_metric? {past : List (Shelf × Move)} {s : Shelf} (h : Run step .empty past s) :
    s.metric? = past.foldl (fun owned x => x.2.own owned) fun _ => none := by
  induction h with
  | start => rfl
  | next _ enabled ih => rw [List.foldl_append, ← ih, metric?_step enabled]; rfl

theorem same?_eq {s : Shelf} {a b : String} {m n : Metric} (hm : s.metric? a = some m)
    (hn : s.metric? b = some n) : s.same? a b = some (m.same n) := by
  obtain ⟨p, hp, hpm⟩ := Option.bind_eq_some_iff.1 hm
  obtain ⟨q, hq, hqn⟩ := Option.bind_eq_some_iff.1 hn
  simp only [same?, hp, hq, hpm, hqn, Option.bind_eq_bind, Option.bind_some]
  by_cases h : p = q
  · subst h
    obtain rfl : m = n := Option.some_inj.1 (hpm.symm.trans hqn)
    simp [Metric.same_equivalence.refl m]
  · simp [h]

/-- Two tag sets are the same exactly if they are permutations of each other, and two metrics
exactly if their names are equal and their tags are permutations of each other. Both are
equivalences and do not change if both sides get one more tag; and the same tags with different
names give the same value for every name. After any sequence of moves every handle has the metric
that it would have by itself, and the comparison of two handles, which looks at their places first,
is the comparison of these metrics. -/
theorem identity {past : List (Shelf × Move)} {s : Shelf} (h : Run step .empty past s) :
    (∀ a b : Tags, (a.same b = true ↔ a.list.Perm b.list) ∧
      (∀ tag, (a.add tag).same (b.add tag) = a.same b) ∧
      (a.same b = true → a.Distinct → ∀ name, a.get? name = b.get? name)) ∧
    (∀ m n : Metric, (m.same n = true ↔ m.name = n.name ∧ m.tags.list.Perm n.tags.list) ∧
      ∀ tag, (m.withTag tag).same (n.withTag tag) = m.same n) ∧
    Equivalence (fun a b : Tags => a.same b = true) ∧
    Equivalence (fun m n : Metric => m.same n = true) ∧
    s.metric? = past.foldl (fun owned x => x.2.own owned) (fun _ => none) ∧
    ∀ a b m n, s.metric? a = some m → s.metric? b = some n → s.same? a b = some (m.same n) := by
  refine ⟨fun a b => ⟨Tags.same_iff_perm, Tags.same_add a b, Tags.get?_congr⟩,
    fun m n => ⟨Metric.same_iff_perm, Metric.same_withTag m n⟩,
    Tags.same_equivalence, Metric.same_equivalence, run_metric? h, fun a b m n => same?_eq⟩

/-- With one name twice, the same tags in another order may give another value for it. -/
example : (Tags.ofList [⟨"a", "1"⟩, ⟨"a", "2"⟩]).same (.ofList [⟨"a", "2"⟩, ⟨"a", "1"⟩]) = true ∧
    (Tags.ofList [⟨"a", "1"⟩, ⟨"a", "2"⟩]).get? "a" = some "1" ∧
    (Tags.ofList [⟨"a", "2"⟩, ⟨"a", "1"⟩]).get? "a" = some "2" := by
  exact ⟨Tags.same_iff_perm.2 (.swap _ _ _), rfl, rfl⟩

def host : Tag := ⟨"host", "a"⟩

def zone : Tag := ⟨"zone", "x"⟩

/-- One metric is cloned before it gets its second tag; another one gets both tags the other way
round, and a clone of it is told apart by its help text only. -/
def clones : Option (List (Shelf × Move) × Shelf) :=
  Run.follow step .empty
    [.create "first" "up", .edit "first" (.tag host), .share "early" "first",
      .edit "first" (.tag zone), .create "second" "up", .edit "second" (.tags (.ofList [zone])),
      .edit "second" (.tag host), .share "late" "second", .share "twin" "late",
      .edit "late" (.help "is it up?")]

/-- What a handle has, as the parts of a metric. -/
def shown (s : Shelf) (handle : String) : Option (String × String × List Tag) :=
  (s.metric? handle).map fun m => (m.name, m.help, m.tags.list)

theorem identity_clones : ∃ past s, Run step .empty past s ∧
    s.same? "first" "second" = some true ∧ s.same? "first" "early" = some false ∧
    s.same? "late" "twin" = some true ∧ s.same? "second" "twin" = some true ∧
    s.place? "first" ≠ s.place? "second" ∧ s.place? "late" ≠ s.place? "twin" ∧
    s.place? "second" = s.place? "twin" := by
  have hsome : clones.isSome = true := by decide +kernel
  have hshown :
      clones.map (fun run => ["first", "early", "second", "late", "twin"].map run.2.shown) =
        some [some ("up", "", [host, zone]), some ("up", "", [host]), some ("up", "", [zone, host]),
          some ("up", "is it up?", [zone, host]), some ("up", "", [zone, host])] := by
    decide +kernel
  have hplaces : clones.map (fun run => decide (run.2.place? "first" ≠ run.2.place? "second" ∧
      run.2.place? "late" ≠ run.2.place? "twin" ∧ run.2.place? "second" = run.2.place? "twin")) =
      some true := by
    decide +kernel
  obtain ⟨⟨past, s⟩, hr⟩ := Option.isSome_iff_exists.1 hsome
  rw [hr] at hshown hplaces
  have h := Run.of_follow hr
  simp only [Option.map_some, Option.some.injEq, List.map_cons, List.cons.injEq, shown,
    Option.map_eq_some_iff, Prod.mk.injEq] at hshown
  obtain ⟨⟨first, hfirst, fname, -, ftags⟩, ⟨early, hearly, ename, -, etags⟩,
    ⟨second, hsecond, sname, -, stags⟩, ⟨late, hlate, lname, -, ltags⟩,
    ⟨twin, htwin, tname, -, ttags⟩, -⟩ := hshown
  obtain ⟨-, alike, -, -, -, compared⟩ := identity h
  refine ⟨past, s, h, ?_, ?_, ?_, ?_, of_decide_eq_true (Option.some.inj hplaces)⟩
  · rw [compared _ _ _ _ hfirst hsecond, (alike first second).1.2
      ⟨fname.trans sname.symm, by rw [ftags, stags]; decide⟩]
  · have distinct : first.same early ≠ true := fun hs => by
      have perm := ((alike first early).1.1 hs).2
      rw [ftags, etags] at perm
      exact absurd perm (by decide)
    rw [compared _ _ _ _ hfirst hearly, Bool.eq_false_iff.2 distinct]
  · rw [compared _ _ _ _ hlate htwin, (alike late twin).1.2
      ⟨lname.trans tname.symm, by rw [ltags, ttags]⟩]
  · rw [compared _ _ _ _ hsecond htwin, (alike second twin).1.2
      ⟨sname.trans tname.symm, by rw [stags, ttags]⟩]

end Shelf
end Telemetry
