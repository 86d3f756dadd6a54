import Mathlib.Data.List.Pairwise
import Telemetry.Proofs.Fallible
import Telemetry.Proofs.Process.Table
import Telemetry.Proofs.Text.Numerals
import Telemetry.Proofs.Text.Words
import Telemetry.Process.Status
/-!
Status tables and the fields that they give.

Each entry is read by itself, whatever was read before it. So the first entry that is not valid
gives the error, and without one each field has the value of its last entry. Entries for no field do
not count, and where each field has one entry at most the order of entries does not either.
-/

namespace Telemetry
namespace Status

open Table Text

inductive Kind where
  | count
  | size
  deriving DecidableEq

inductive Field where
  | threads
  | residentSize
  | virtualSize
  | voluntarySwitches
  | involuntarySwitches
  deriving DecidableEq

namespace Field

def key : Field → String
  | threads => "Threads"
  | residentSize => "VmRSS"
  | virtualSize => "VmSize"
  | voluntarySwitches => "voluntary_ctxt_switches"
  | involuntarySwitches => "nonvoluntary_ctxt_switches"

def kind : Field → Kind
  | threads | voluntarySwitches | involuntarySwitches => .count
  | residentSize | virtualSize => .size

/-- The fields in the order in which the kernel shows them. -/
def all : List Field := [virtualSize, residentSize, threads, voluntarySwitches, involuntarySwitches]

def ofKey? (key : List Char) : Option Field := all.find? fun f => f.key.toList = key

end Field

def value (s : Status) : Field → Nat
  | .threads => s.threads
  | .residentSize => s.residentSize
  | .virtualSize => s.virtualSize
  | .voluntarySwitches => s.voluntarySwitches
  | .involuntarySwitches => s.involuntarySwitches

def put (s : Status) (n : Nat) : Field → Status
  | .threads => { s with threads := n }
  | .residentSize => { s with residentSize := n }
  | .virtualSize => { s with virtualSize := n }
  | .voluntarySwitches => { s with voluntarySwitches := n }
  | .involuntarySwitches => { s with involuntarySwitches := n }

/-- The number that a text stands for. Behind the unit of a size anything may follow. -/
inductive Means : Kind → List Char → Nat → Prop
  | count {cs : List Char} {n : Nat} (denotes : Numeral.Denotes cs n) (fits : n < 2 ^ 64) :
      Means .count cs n
  | bytes {cs word : List Char} {n : Nat} (worded : Worded [word] cs)
      (denotes : Numeral.Denotes word n) (fits : n < 2 ^ 64) : Means .size cs n
  | kilobytes {cs word : List Char} {rest : List (List Char)} {n : Nat}
      (worded : Worded (word :: ['k', 'B'] :: rest) cs) (denotes : Numeral.Denotes word n)
      (fits : n < 2 ^ 64) : Means .size cs (min (n * 1024) (2 ^ 64 - 1))

/-- Why a text for the field of a key stands for no number. -/
inductive Spoils (key : String) : Kind → List Char → Fault → Prop
  | count {cs : List Char} {fault : Numeral.Fault}
      (spoils : Numeral.parse Numeral.limit64 cs = .error fault) :
      Spoils key .count cs (.badNumeral key fault)
  | empty {cs : List Char} (worded : Worded [] cs) : Spoils key .size cs (.noValue key)
  | number {cs word : List Char} {rest : List (List Char)} {fault : Numeral.Fault}
      (worded : Worded (word :: rest) cs)
      (spoils : Numeral.parse Numeral.limit64 word = .error fault) :
      Spoils key .size cs (.badNumeral key fault)
  | unit {cs word unit : List Char} {rest : List (List Char)} {n : Nat}
      (worded : Worded (word :: unit :: rest) cs) (denotes : Numeral.Denotes word n)
      (fits : n < 2 ^ 64) (other : unit ≠ ['k', 'B']) :
      Spoils key .size cs (.badUnit key (String.ofList unit))

section Entries

variable (e : List Char × List Char) (f : Field) (es : List (List Char × List Char))

/-- The entry is for the field. -/
def Names : Prop := e.1 = f.key.toList

/-- The entry is for some field. -/
def Known : Prop := ∃ f, Names e f

def Invalid : Prop := ∃ f, Names e f ∧ ∀ n, ¬ Means f.kind e.2 n

def Blames (fault : Fault) : Prop := ∃ f, Names e f ∧ Spoils f.key f.kind e.2 fault

/-- No field has both of the entries. -/
def Apart (a b : List Char × List Char) : Prop := ∀ f, Names a f → ¬ Names b f

/-- The value that entries give a field: the one in its last entry, or the initial one. -/
inductive Gives (initial : Nat) : Nat → Prop
  | last {before behind : List (List Char × List Char)} {e : List Char × List Char} {n : Nat}
      (split : es = before ++ e :: behind) (names : Names e f) (means : Means f.kind e.2 n)
      (last : ∀ e ∈ behind, ¬ Names e f) : Gives initial n
  | initial (never : ∀ e ∈ es, ¬ Names e f) : Gives initial initial

end Entries

/-! ## Values -/

def Kind.parse (key : String) : Kind → List Char → Except Fault Nat
  | .count, cs => parseCount key cs
  | .size, cs => parseSize key cs

theorem parseCount_eq_ok_iff {key : String} {cs : List Char} {n : Nat} :
    parseCount key cs = .ok n ↔ Numeral.Denotes cs n ∧ n < 2 ^ 64 := by
  have hl : 0 < Numeral.limit64 := by decide
  rw [parseCount, Except.mapError_eq_ok_iff, Numeral.parse_eq_ok_iff hl]
  rfl

theorem parseCount_eq_error_iff {key : String} {cs : List Char} {fault : Fault} :
    parseCount key cs = .error fault ↔
      ∃ f, Numeral.parse Numeral.limit64 cs = .error f ∧ fault = .badNumeral key f := by
  rw [parseCount, Except.mapError_eq_error_iff]

/-- A size is read from the words of its text. -/
def parseWords (key : String) : List (List Char) → Except Fault Nat
  | [] => .error (.noValue key)
  | [word] => parseCount key word
  | word :: unit :: _ =>
    match parseCount key word with
    | .error fault => .error fault
    | .ok n =>
      if unit = ['k', 'B'] then .ok (min (n * 1024) largestSize)
      else .error (.badUnit key (String.ofList unit))

theorem Kind.parse_size {key : String} {cs : List Char} {ws : List (List Char)} (h : Worded ws cs) :
    Kind.size.parse key cs = parseWords key ws := by
  rw [← words_of_worded h]
  rfl

theorem Kind.parse_of_means {key : String} {kind : Kind} {cs : List Char} {n : Nat}
    (h : Means kind cs n) : kind.parse key cs = .ok n := by
  cases h with
  | count denotes fits => exact parseCount_eq_ok_iff.2 ⟨denotes, fits⟩
  | bytes worded denotes fits =>
      rw [parse_size worded]
      exact parseCount_eq_ok_iff.2 ⟨denotes, fits⟩
  | kilobytes worded denotes fits =>
      rw [parse_size worded, parseWords, parseCount_eq_ok_iff.2 ⟨denotes, fits⟩]
      rfl

theorem Kind.parse_of_spoils {key : String} {kind : Kind} {cs : List Char} {fault : Fault}
    (h : Spoils key kind cs fault) : kind.parse key cs = .error fault := by
  cases h with
  | count spoils => exact parseCount_eq_error_iff.2 ⟨_, spoils, rfl⟩
  | empty worded => rw [parse_size worded, parseWords]
  | @number _ word rest fault worded spoils =>
      have hw : parseCount key word = .error (.badNumeral key fault) :=
        parseCount_eq_error_iff.2 ⟨_, spoils, rfl⟩
      rw [parse_size worded]
      cases rest with
      | nil => exact hw
      | cons unit rest => rw [parseWords, hw]
  | unit worded denotes fits other =>
      rw [parse_size worded, parseWords, parseCount_eq_ok_iff.2 ⟨denotes, fits⟩]
      exact if_neg other

/-- A text stands for a number, or it is spoiled. -/
theorem means_or_spoils (key : String) (kind : Kind) (cs : List Char) :
    (∃ n, Means kind cs n) ∨ ∃ fault, Spoils key kind cs fault := by
  have number (word : List Char) :
      (∃ n, Numeral.Denotes word n ∧ n < 2 ^ 64) ∨
        ∃ fault, Numeral.parse Numeral.limit64 word = .error fault := by
    have hl : 0 < Numeral.limit64 := by decide
    cases hp : Numeral.parse Numeral.limit64 word with
    | ok n => exact .inl ⟨n, (Numeral.parse_eq_ok_iff hl).1 hp⟩
    | error fault => exact .inr ⟨fault, rfl⟩
  cases kind with
  | count =>
      rcases number cs with ⟨n, denotes, fits⟩ | ⟨fault, spoils⟩
      · exact .inl ⟨n, .count denotes fits⟩
      · exact .inr ⟨_, .count spoils⟩
  | size =>
      have worded := worded_words cs
      generalize words cs = ws at worded
      match ws with
      | [] => exact .inr ⟨_, .empty worded⟩
      | word :: rest =>
          rcases number word with ⟨n, denotes, fits⟩ | ⟨fault, spoils⟩
          · match rest with
            | [] => exact .inl ⟨n, .bytes worded denotes fits⟩
            | unit :: rest =>
                by_cases hu : unit = ['k', 'B']
                · rw [hu] at worded
                  exact .inl ⟨_, .kilobytes worded denotes fits⟩
                · exact .inr ⟨_, .unit worded denotes fits hu⟩
          · exact .inr ⟨_, .number worded spoils⟩

theorem Kind.parse_eq_ok_iff {key : String} {kind : Kind} {cs : List Char} {n : Nat} :
    kind.parse key cs = .ok n ↔ Means kind cs n := by
  refine ⟨fun h => ?_, parse_of_means⟩
  rcases means_or_spoils key kind cs with ⟨m, means⟩ | ⟨fault, spoils⟩
  · cases h.symm.trans (parse_of_means means)
    exact means
  · exact nomatch h.symm.trans (parse_of_spoils spoils)

theorem Kind.parse_eq_error_iff {key : String} {kind : Kind} {cs : List Char} {fault : Fault} :
    kind.parse key cs = .error fault ↔ Spoils key kind cs fault := by
  refine ⟨fun h => ?_, parse_of_spoils⟩
  rcases means_or_spoils key kind cs with ⟨n, means⟩ | ⟨fault', spoils⟩
  · exact nomatch h.symm.trans (parse_of_means means)
  · cases h.symm.trans (parse_of_spoils spoils)
    exact spoils

theorem Means.unique {kind : Kind} {cs : List Char} {m n : Nat} (hm : Means kind cs m)
    (hn : Means kind cs n) : m = n := by
  have hparse := (@Kind.parse_of_means "" kind cs m hm).symm.trans (Kind.parse_of_means hn)
  exact Except.ok.inj hparse

/-! ## Single entries -/

theorem Field.mem_all (f : Field) : f ∈ all := by
  cases f <;> decide

theorem Names.unique {e : List Char × List Char} {f g : Field} (hf : Names e f) (hg : Names e g) :
    f = g := by
  have hkeys : ∀ f ∈ Field.all, ∀ g ∈ Field.all, f.key = g.key → f = g := by decide
  exact hkeys f f.mem_all g g.mem_all (String.toList_inj.1 (hf.symm.trans hg))

theorem Field.ofKey?_eq_some_iff {e : List Char × List Char} {f : Field} :
    ofKey? e.1 = some f ↔ Names e f := by
  have names {g : Field} (h : ofKey? e.1 = some g) : Names e g := by
    unfold ofKey? at h
    have hk := List.find?_some h
    exact (of_decide_eq_true hk).symm
  refine ⟨names, fun h => ?_⟩
  cases hk : ofKey? e.1 with
  | some g => exact congrArg some ((names hk).unique h)
  | none =>
      unfold ofKey? at hk
      exact absurd (decide_eq_true h.symm) (List.find?_eq_none.1 hk f f.mem_all)

/-- What is read in an entry: nothing, or the number for a field. -/
def reading (e : List Char × List Char) : Except Fault (Option (Field × Nat)) :=
  match Field.ofKey? e.1 with
  | none => .ok none
  | some f => (f.kind.parse f.key e.2).map fun n => some (f, n)

def take (s : Status) : Option (Field × Nat) → Status
  | none => s
  | some (f, n) => s.put n f

theorem reading_of_names {e : List Char × List Char} {f : Field} (h : Names e f) :
    reading e = (f.kind.parse f.key e.2).map fun n => some (f, n) := by
  rw [reading, Field.ofKey?_eq_some_iff.2 h]

theorem reading_of_not_known {e : List Char × List Char} (h : ¬ Known e) :
    reading e = .ok none := by
  have hn : Field.ofKey? e.1 = none :=
    Option.eq_none_iff_forall_ne_some.2 fun f hf => h ⟨f, Field.ofKey?_eq_some_iff.1 hf⟩
  rw [reading, hn]

theorem update_of_names {s : Status} {e : List Char × List Char} {f : Field} (h : Names e f) :
    s.update (String.ofList e.1) e.2 = (f.kind.parse f.key e.2).map fun n => s.put n f := by
  rw [h, String.ofList_toList]
  cases f <;> rfl

theorem update_of_not_known {s : Status} {e : List Char × List Char} (h : ¬ Known e) :
    s.update (String.ofList e.1) e.2 = .ok s := by
  have other (f : Field) : String.ofList e.1 ≠ f.key := by
    intro hk
    exact h ⟨f, by rw [Names, ← hk, String.toList_ofList]⟩
  exact (if_neg (other .threads)).trans <| (if_neg (other .residentSize)).trans <|
    (if_neg (other .virtualSize)).trans <| (if_neg (other .voluntarySwitches)).trans <|
    if_neg (other .involuntarySwitches)

theorem update_eq (s : Status) (e : List Char × List Char) :
    s.update (String.ofList e.1) e.2 = (reading e).map s.take := by
  by_cases h : Known e
  · obtain ⟨f, hf⟩ := h
    rw [update_of_names hf, reading_of_names hf]
    cases f.kind.parse f.key e.2 <;> rfl
  · rw [update_of_not_known h, reading_of_not_known h]
    rfl

theorem reading_eq_error_iff {e : List Char × List Char} {fault : Fault} :
    reading e = .error fault ↔ Blames e fault := by
  constructor
  · intro h
    by_cases hk : Known e
    · obtain ⟨f, hf⟩ := hk
      rw [reading_of_names hf, Except.map_eq_error_iff, Kind.parse_eq_error_iff] at h
      exact ⟨f, hf, h⟩
    · exact nomatch (reading_of_not_known hk).symm.trans h
  · rintro ⟨f, hf, spoils⟩
    rw [reading_of_names hf, Except.map_eq_error_iff]
    exact Kind.parse_of_spoils spoils

theorem invalid_iff {e : List Char × List Char} : Invalid e ↔ ∃ fault, Blames e fault := by
  constructor
  · rintro ⟨f, hf, meaningless⟩
    rcases means_or_spoils f.key f.kind e.2 with ⟨n, means⟩ | ⟨fault, spoils⟩
    · exact absurd means (meaningless n)
    · exact ⟨fault, f, hf, spoils⟩
  · rintro ⟨fault, f, hf, spoils⟩
    refine ⟨f, hf, fun n means => ?_⟩
    exact nomatch (Kind.parse_of_means means).symm.trans (Kind.parse_of_spoils spoils)

theorem exists_reading_iff {e : List Char × List Char} :
    (∃ r, reading e = .ok r) ↔ ¬ Invalid e := by
  simp only [invalid_iff, ← reading_eq_error_iff]
  exact Except.exists_eq_ok_iff

theorem reading_cases {e : List Char × List Char} {r : Option (Field × Nat)}
    (h : reading e = .ok r) :
    (r = none ∧ ¬ Known e) ∨ ∃ f n, r = some (f, n) ∧ Names e f ∧ Means f.kind e.2 n := by
  by_cases hk : Known e
  · obtain ⟨f, hf⟩ := hk
    rw [reading_of_names hf] at h
    obtain ⟨n, hn, rfl⟩ := Except.map_eq_ok_iff.1 h
    exact .inr ⟨f, n, rfl, hf, Kind.parse_eq_ok_iff.1 hn⟩
  · cases (reading_of_not_known hk).symm.trans h
    exact .inl ⟨rfl, hk⟩

theorem value_zero (f : Field) : zero.value f = 0 := by
  cases f <;> rfl

theorem value_put_self (s : Status) (n : Nat) (f : Field) : (s.put n f).value f = n := by
  cases f <;> rfl

theorem value_put_other (s : Status) (n : Nat) {f g : Field} (h : f ≠ g) :
    (s.put n g).value f = s.value f := by
  cases f <;> cases g <;> first | rfl | exact absurd rfl h

theorem ext_value {s t : Status} (h : ∀ f, s.value f = t.value f) : s = t := by
  obtain ⟨a, b, c, d, e⟩ := s
  obtain ⟨a', b', c', d', e'⟩ := t
  cases h .threads
  cases h .residentSize
  cases h .virtualSize
  cases h .voluntarySwitches
  cases h .involuntarySwitches
  rfl

/-! ## Entries in order -/

theorem updateAll_eq (s : Status) (es : List (List Char × List Char)) :
    s.updateAll es = (es.mapM reading).map (·.foldl take s) := by
  induction es generalizing s with
  | nil => rfl
  | cons e es ih =>
      obtain ⟨key, cs⟩ := e
      rw [updateAll, update_eq s (key, cs)]
      cases hr : reading (key, cs) with
      | error fault =>
          rw [mapM_cons_error hr]
          rfl
      | ok r =>
          rw [mapM_cons_ok hr]
          show (s.take r).updateAll es = _
          rw [ih]
          cases es.mapM reading <;> rfl

theorem updateAll_eq_error_iff {s : Status} {es : List (List Char × List Char)} {fault : Fault} :
    s.updateAll es = .error fault ↔
      ∃ before e behind, es = before ++ e :: behind ∧ (∀ b ∈ before, ¬ Invalid b) ∧
        Blames e fault := by
  rw [updateAll_eq, Except.map_eq_error_iff, mapM_eq_error_iff]
  simp only [exists_reading_iff, reading_eq_error_iff]

theorem exists_updateAll_iff {s : Status} {es : List (List Char × List Char)} :
    (∃ t, s.updateAll es = .ok t) ↔ ∀ e ∈ es, ¬ Invalid e := by
  have hread : (∃ t, s.updateAll es = .ok t) ↔ ∃ rs, es.mapM reading = .ok rs := by
    simp only [updateAll_eq, Except.map_eq_ok_iff]
    exact ⟨fun ⟨_, rs, hr, _⟩ => ⟨rs, hr⟩, fun ⟨rs, hr⟩ => ⟨_, rs, hr, rfl⟩⟩
  rw [hread, exists_mapM_iff]
  simp only [exists_reading_iff]

theorem Gives.cons {e : List Char × List Char} {f : Field} {es : List (List Char × List Char)}
    {i j n : Nat} (h : Gives f es i n)
    (hi : (¬ Names e f ∧ i = j) ∨ Names e f ∧ Means f.kind e.2 i) : Gives f (e :: es) j n := by
  cases h with
  | @last before _ _ _ split names means last =>
      have hsplit := congrArg (e :: ·) split
      rw [← List.cons_append] at hsplit
      exact .last hsplit names means last
  | initial never =>
      rcases hi with ⟨other, rfl⟩ | ⟨names, means⟩
      · exact .initial (List.forall_mem_cons.2 ⟨other, never⟩)
      · exact .last (List.nil_append _).symm names means never

theorem exists_fault_iff {s : Status} {es : List (List Char × List Char)} :
    (∃ fault, s.updateAll es = .error fault) ↔ ∃ e ∈ es, Invalid e := by
  have hread := @exists_updateAll_iff s es
  rw [Except.exists_eq_ok_iff] at hread
  rw [← not_iff_not, hread]
  simp only [not_exists, not_and]

/-- Each field has the value of its last entry. -/
theorem gives_of_updateAll {s t : Status} {es : List (List Char × List Char)}
    (h : s.updateAll es = .ok t) (f : Field) : Gives f es (s.value f) (t.value f) := by
  rw [updateAll_eq] at h
  obtain ⟨rs, hrs, rfl⟩ := Except.map_eq_ok_iff.1 h
  have hread := mapM_eq_ok_iff.1 hrs
  clear h hrs
  -- From the front, for every status: what the first entry leaves is where the others start.
  induction hread generalizing s with
  | nil => exact .initial nofun
  | @cons e r es rs hr _ ih =>
      refine (ih (s := s.take r)).cons ?_
      rcases reading_cases hr with ⟨rfl, unknown⟩ | ⟨g, n, rfl, names, means⟩
      · exact .inl ⟨fun hf => unknown ⟨f, hf⟩, rfl⟩
      · by_cases hg : f = g
        · subst hg
          refine .inr ⟨names, ?_⟩
          rw [take, value_put_self]
          exact means
        · exact .inl ⟨fun hf => hg (hf.unique names), value_put_other s n hg⟩

/-! ## Entries that do not count, and entries in another order -/

instance : DecidablePred Known := fun e =>
  decidable_of_iff ((Field.ofKey? e.1).isSome = true) <| by
    simp only [Option.isSome_iff_exists, Field.ofKey?_eq_some_iff]
    rfl

theorem updateAll_filter (s : Status) (es : List (List Char × List Char)) :
    s.updateAll (es.filter (Known ·)) = s.updateAll es := by
  induction es generalizing s with
  | nil => rfl
  | cons e es ih =>
      obtain ⟨key, cs⟩ := e
      by_cases hk : Known (key, cs)
      · have hp : decide (Known (key, cs)) = true := decide_eq_true hk
        rw [List.filter_cons_of_pos (p := fun e => decide (Known e)) hp, updateAll, updateAll]
        cases s.update (String.ofList key) cs with
        | ok t => exact ih t
        | error fault => rfl
      · have hu : s.update (String.ofList key) cs = .ok s := update_of_not_known hk
        have hn : ¬ decide (Known (key, cs)) = true := fun h => hk (of_decide_eq_true h)
        rw [List.filter_cons_of_neg (p := fun e => decide (Known e)) hn, updateAll, hu]
        exact ih s

theorem apart_of_ne {a b : List Char × List Char} (h : a.1 ≠ b.1) : Apart a b :=
  fun _ ha hb => h (ha.trans hb.symm)

theorem Apart.symm {a b : List Char × List Char} (h : Apart a b) : Apart b a :=
  fun f hb ha => h f ha hb

instance : Std.Symm Apart := ⟨fun _ _ => Apart.symm⟩

theorem Gives.eq_of_perm {f : Field} {es es' : List (List Char × List Char)} {i m n : Nat}
    (perm : es'.Perm es) (apart : es.Pairwise Apart) (hm : Gives f es i m) (hn : Gives f es' i n) :
    m = n := by
  cases hm with
  | @last _ _ e _ split names means last =>
      have he : e ∈ es := split ▸ List.mem_append_right _ List.mem_cons_self
      cases hn with
      | @last _ _ e' _ split' names' means' last' =>
          have he' : e' ∈ es' := split' ▸ List.mem_append_right _ List.mem_cons_self
          have same : e = e' := by
            by_contra hne
            exact apart.forall he (perm.mem_iff.1 he') hne f names names'
          subst same
          exact means.unique means'
      | initial never => exact absurd names (never e (perm.mem_iff.2 he))
  | initial never =>
      cases hn with
      | @last _ _ e' _ split' names' means' last' =>
          have he' : e' ∈ es' := split' ▸ List.mem_append_right _ List.mem_cons_self
          exact absurd names' (never e' (perm.mem_iff.1 he'))
      | initial never' => rfl

theorem updateAll_of_perm {s t : Status} {es es' : List (List Char × List Char)}
    (perm : es'.Perm es) (apart : es.Pairwise Apart) (h : s.updateAll es = .ok t) :
    s.updateAll es' = .ok t := by
  have valid : ∀ e ∈ es', ¬ Invalid e := fun e he =>
    exists_updateAll_iff.1 ⟨t, h⟩ e (perm.mem_iff.1 he)
  obtain ⟨t', ht'⟩ := exists_updateAll_iff.2 valid
  have same : t = t' := ext_value fun f =>
    (gives_of_updateAll h f).eq_of_perm perm apart (gives_of_updateAll ht' f)
  rw [ht', same]

/-! ## The kernel's layout -/

/-- How the value of a field is shown. Sizes are shown in units of 1024 bytes. -/
def shown : Kind → Nat → List Char
  | .count, n => Nat.toDigits 10 n
  | .size, n => Nat.toDigits 10 (n / 1024) ++ ' ' :: ['k', 'B']

/-- The blanks in front of a value. Sizes of less than eight digits are moved to the right. -/
def margin : Kind → Nat → List Char
  | .count, _ => []
  | .size, n => List.replicate (8 - (Nat.toDigits 10 (n / 1024)).length) ' '

def fieldLine (s : Status) (f : Field) : List Char :=
  f.key.toList ++ ':' :: '\t' :: (margin f.kind (s.value f) ++ shown f.kind (s.value f))

/-- The lines of the fields in the layout of the kernel. -/
def print (s : Status) : String :=
  String.ofList ((Field.all.map s.fieldLine).flatMap (· ++ ['\n']))

/-- A status that can be shown: its fields have 64 bits, and its sizes are multiples of the unit. -/
def Showable (s : Status) : Prop :=
  ∀ f : Field, s.value f < 2 ^ 64 ∧ (f.kind = .size → 1024 ∣ s.value f)

theorem tight_key (f : Field) : Tight f.key.toList := by
  refine tight_of_forall (not_blank_of_all ?_)
  cases f <;> decide

theorem means_shown {f : Field} {n : Nat} (hn : n < 2 ^ 64) (hs : f.kind = .size → 1024 ∣ n) :
    Means f.kind (shown f.kind n) n := by
  cases hk : f.kind with
  | count => exact .count (Numeral.denotes_toDigits n) hn
  | size =>
      have hd := Nat.div_mul_cancel (hs hk)
      have denotes := Numeral.denotes_toDigits (n / 1024)
      have worded : Worded [Nat.toDigits 10 (n / 1024), ['k', 'B']] (shown .size n) := by
        refine words_eq_iff.1 ?_
        rw [shown, words_append_break (by decide), words_word (isWord_of_not_blank denotes.ne_nil
          denotes.not_blank)]
        rfl
      have means := Means.kilobytes worded denotes (by omega)
      rw [hd, Nat.min_eq_left (Nat.le_sub_one_of_lt hn)] at means
      exact means

theorem tight_shown (kind : Kind) (n : Nat) : Tight (shown kind n) ∧ shown kind n ≠ [] := by
  have number (m : Nat) := (Numeral.denotes_toDigits m).not_blank
  cases kind with
  | count => exact ⟨tight_of_forall (number n), Nat.toDigits_ne_nil⟩
  | size =>
      have unit : Tight ['k', 'B'] := tight_of_forall (not_blank_of_all (by decide))
      have ends := tight_around (tight_of_forall (number (n / 1024))) Nat.toDigits_ne_nil unit
        (List.cons_ne_nil _ _) [' ']
      rw [List.append_assoc] at ends
      exact ⟨ends, List.append_ne_nil_of_left_ne_nil Nat.toDigits_ne_nil _⟩

theorem blank_margin (kind : Kind) (n : Nat) : Blank ('\t' :: margin kind n) := by
  refine List.forall_mem_cons.2 ⟨by decide, fun c hc => ?_⟩
  cases kind with
  | count => exact absurd hc List.not_mem_nil
  | size =>
      rw [List.eq_of_mem_replicate hc]
      decide

theorem entry_fieldLine (s : Status) (f : Field) :
    Entry (s.fieldLine f) (f.key.toList, shown f.kind (s.value f)) := by
  have first : ':' ∉ f.key.toList := by
    cases f <;> decide
  have hvalue := trim_between (blank_margin f.kind (s.value f)) (tight_shown f.kind (s.value f)).1
    (b := []) nofun
  rw [List.append_nil] at hvalue
  have entry := @Entry.colon _ ('\t' :: margin f.kind (s.value f) ++ shown f.kind (s.value f)) first
  rw [trim_self (tight_key f), hvalue] at entry
  exact entry

theorem newline_not_mem_fieldLine (s : Status) (f : Field) : '\n' ∉ s.fieldLine f := by
  have hkey : '\n' ∉ f.key.toList := by
    cases f <;> decide
  have hdigits (n : Nat) : '\n' ∉ Nat.toDigits 10 n := fun hm =>
    absurd ((Numeral.denotes_toDigits n).not_blank '\n' hm) (by decide)
  have hmargin (kind : Kind) (n : Nat) : '\n' ∉ margin kind n := by
    cases kind with
    | count => exact List.not_mem_nil
    | size => exact fun hm => absurd (List.eq_of_mem_replicate hm) (by decide)
  have hshown (kind : Kind) (n : Nat) : '\n' ∉ shown kind n := by
    cases kind with
    | count => exact hdigits n
    | size => exact fun hm => (List.mem_append.1 hm).elim (hdigits _) (by decide)
  unfold fieldLine
  simp only [List.mem_append, List.mem_cons, not_or]
  exact ⟨hkey, by decide, by decide, hmargin _ _, hshown _ _⟩

theorem tight_fieldLine (s : Status) (f : Field) : Tight (s.fieldLine f) ∧ s.fieldLine f ≠ [] := by
  have hn : f.key.toList ≠ [] := by
    cases f <;> decide
  obtain ⟨tight, filled⟩ := tight_shown f.kind (s.value f)
  have ends := tight_around (tight_key f) hn tight filled (':' :: '\t' :: margin f.kind (s.value f))
  rw [List.append_assoc] at ends
  exact ⟨ends, List.append_ne_nil_of_left_ne_nil hn _⟩

/-- The entries in the table that the kernel shows. -/
def entries (s : Status) : List (List Char × List Char) :=
  Field.all.map fun f => (f.key.toList, shown f.kind (s.value f))

theorem entries_print (s : Status) : Entries (print s).toList s.entries := by
  have trimmed : (Field.all.map s.fieldLine).map trim = Field.all.map s.fieldLine := by
    rw [List.map_map]
    exact List.map_congr_left fun f _ => trim_self (tight_fieldLine s f).1
  have consists := @consists_flatMap (Field.all.map s.fieldLine)
    (List.forall_mem_map.2 fun f _ => newline_not_mem_fieldLine s f)
    (List.forall_mem_map.2 fun f _ => by
      rw [trim_self (tight_fieldLine s f).1]
      exact (tight_fieldLine s f).2)
  rw [trimmed] at consists
  refine ⟨_, by rwa [print, String.toList_ofList], ?_⟩
  rw [entries, List.forall₂_map_left_iff, List.forall₂_map_right_iff]
  exact List.forall₂_same.2 fun f _ => entry_fieldLine s f

theorem parse_eq {text : String} {es : List (List Char × List Char)}
    (h : Entries text.toList es) : parse text = zero.updateAll es := by
  rw [parse, properties_eq_iff.2 h]

theorem parse_print {s : Status} (h : Showable s) : parse (print s) = .ok s := by
  have entry {e : List Char × List Char} (he : e ∈ s.entries) {f : Field} (names : Names e f) :
      e.2 = shown f.kind (s.value f) := by
    obtain ⟨g, -, rfl⟩ := List.mem_map.1 he
    have same : f = g := names.unique rfl
    rw [same]
  have means (f : Field) := means_shown (h f).1 (h f).2
  have valid : ∀ e ∈ s.entries, ¬ Invalid e := by
    rintro e he ⟨f, names, meaningless⟩
    exact meaningless _ (entry he names ▸ means f)
  obtain ⟨t, ht⟩ := exists_updateAll_iff.2 valid
  have same : t = s := by
    refine ext_value fun f => ?_
    have gives := gives_of_updateAll ht f
    generalize t.value f = n at gives
    cases gives with
    | @last _ _ e _ split names means' last =>
        have he : e ∈ s.entries := split ▸ List.mem_append_right _ List.mem_cons_self
        rw [entry he names] at means'
        exact means'.unique (means f)
    | initial never => exact absurd rfl (never _ (List.mem_map_of_mem f.mem_all))
  rw [parse_eq (entries_print s), ht, same]

example : print ⟨9, 2048, 4096, 10, 1⟩ =
    "VmSize:\t       4 kB\nVmRSS:\t       2 kB\nThreads:\t9\n" ++
    "voluntary_ctxt_switches:\t10\nnonvoluntary_ctxt_switches:\t1\n" := by decide +kernel

/-- Whatever a text consists of, the entries for the fields decide what is read. -/
theorem fields_read (text : String) :
    ∃ es, (∀ es', Entries text.toList es' ↔ es' = es) ∧
      ((∃ fault, parse text = .error fault) ↔ ∃ e ∈ es, Invalid e) ∧
      (∀ fault, parse text = .error fault ↔
        ∃ before e behind, es = before ++ e :: behind ∧ (∀ b ∈ before, ¬ Invalid b) ∧
          Blames e fault) ∧
      (∀ s, parse text = .ok s → ∀ f, Gives f es 0 (s.value f)) ∧
      (∀ text' es', Entries text'.toList es' → es'.filter (Known ·) = es.filter (Known ·) →
        parse text' = parse text) ∧
      (∀ text' es', Entries text'.toList es' → es'.Perm es → es.Pairwise Apart →
        ∀ s, parse text' = .ok s ↔ parse text = .ok s) ∧
      ∀ s, Showable s → parse (print s) = .ok s := by
  refine ⟨properties text.toList, fun es' => ?_, ?_, fun fault => ?_, fun s hs f => ?_, ?_, ?_, ?_⟩
  · rw [← properties_eq_iff, eq_comm]
  · exact exists_fault_iff
  · exact updateAll_eq_error_iff
  · exact value_zero f ▸ gives_of_updateAll hs f
  · intro text' es' h same
    rw [parse_eq h, ← updateAll_filter, same, updateAll_filter]
    rfl
  · intro text' es' h perm apart s
    rw [parse_eq h]
    have apart' := (perm.pairwise_iff Apart.symm).2 apart
    exact ⟨updateAll_of_perm perm.symm apart', updateAll_of_perm perm apart⟩
  · exact fun s => parse_print

theorem fields_read_moved :
    parse "VmRSS:\t2 kB\nno colon\nThreads:\t4\n" = parse "Name:\tcat\nVmRSS: 2 kB\nThreads: 4" ∧
      (∀ s, parse "Threads:4\nName:dog\nVmRSS:2 kB" = .ok s ↔
        parse "Name:dog\nVmRSS:2 kB\nThreads:4" = .ok s) ∧
      parse (print ⟨9, 2048, 4096, 10, 1⟩) = .ok ⟨9, 2048, 4096, 10, 1⟩ := by
  have entries {text : String} {es : List (List Char × List Char)}
      (h : properties text.toList = es) : Entries text.toList es := properties_eq_iff.1 h
  refine ⟨?_, ?_, ?_⟩
  · obtain ⟨es, hes, -, -, -, same, -⟩ := fields_read "Name:\tcat\nVmRSS: 2 kB\nThreads: 4"
    cases (hes _).1 (entries rfl)
    exact same _ _ (entries rfl) (by decide +kernel)
  · obtain ⟨es, hes, -, -, -, -, moved, -⟩ := fields_read "Name:dog\nVmRSS:2 kB\nThreads:4"
    cases (hes _).1 (entries rfl)
    exact moved _ _ (entries rfl) (by decide +kernel)
      (List.Pairwise.imp apart_of_ne (by decide +kernel))
  · obtain ⟨es, -, -, -, -, -, -, printed⟩ := fields_read ""
    refine printed _ fun f => ?_
    cases f <;> decide

end Status
end Telemetry
