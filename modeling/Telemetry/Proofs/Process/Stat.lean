import Telemetry.Proofs.Fallible
import Telemetry.Proofs.Text.Offsets
import Telemetry.Proofs.Text.Words
import Telemetry.Proofs.Text.Numerals
import Telemetry.Process.Stat
/-!
Stat lines and what they tell.

The name of a command may hold anything. Since no opening parenthesis stands before it and no
closing one behind it, it ends neither too early nor too late, and the fields behind it are counted
from there. Both parentheses have one byte, so the line can be cut at their offsets.
-/

namespace Telemetry
namespace Stat

open Text

/-- The field at a position is a number of 64 bits. -/
def At (fields : List (List Char)) (position n : Nat) : Prop :=
  ∃ word, fields[position]? = some word ∧ Numeral.Denotes word n ∧ n < 2 ^ 64

/-- The state and the numbers that the fields give. The positions are counted from the state. -/
structure Gives (fields : List (List Char)) (s : Stat) : Prop where
  state : ∃ word, fields[0]? = some word ∧ word.head? = some s.state
  minorFaults : At fields 7 s.minorFaults
  majorFaults : At fields 9 s.majorFaults
  userTime : At fields 11 s.userTime
  systemTime : At fields 12 s.systemTime
  threads : At fields 17 s.threads

/-- A line with the number of a process, its command's name in parentheses, and its fields. -/
inductive Tells : List Char → Stat → Prop
  | line {front number gap behind back : List Char} {fields : List (List Char)} {s : Stat}
      (blankFront : Blank front) (denotes : Numeral.Denotes number s.pid) (fits : s.pid < 2 ^ 32)
      (blankGap : Blank gap) (last : ')' ∉ behind) (worded : Worded fields behind)
      (gives : Gives fields s) (blankBack : Blank back) :
      Tells (front ++ (number ++ gap ++ '(' :: (s.command.toList ++ ')' :: (behind ++ back)))) s

/-! ## Fields -/

theorem field_eq_ok_iff {fields : List (List Char)} {position n : Nat} {name : String} :
    field fields position name = .ok n ↔ At fields position n := by
  have hl : 0 < Numeral.limit64 := by decide
  unfold field At
  cases fields[position]? with
  | none => exact ⟨nofun, nofun⟩
  | some word =>
      show Except.mapError _ _ = _ ↔ _
      rw [Except.mapError_eq_ok_iff, Numeral.parse_eq_ok_iff hl]
      constructor
      · intro h
        exact ⟨word, rfl, h⟩
      · rintro ⟨_, hw, h⟩
        cases hw
        exact h

theorem stateOf_eq_ok_iff {fields : List (List Char)} {c : Char} :
    stateOf fields = .ok c ↔ ∃ word, fields[0]? = some word ∧ word.head? = some c := by
  unfold stateOf
  split
  · next d rest others =>
    constructor
    · intro h
      exact ⟨d :: rest, rfl, congrArg some (Except.ok.inj h)⟩
    · rintro ⟨word, hw, hc⟩
      cases hw
      exact congrArg Except.ok (Option.some.inj hc)
  · next hne =>
    refine ⟨nofun, ?_⟩
    rintro ⟨word, hw, hc⟩
    obtain ⟨rest, rfl⟩ := List.head?_eq_some_iff.1 hc
    rw [← List.head?_eq_getElem?] at hw
    obtain ⟨others, rfl⟩ := List.head?_eq_some_iff.1 hw
    exact absurd rfl (hne c rest others)

/-- What is read from the parts of a line. -/
def ofParts (before command behind : List Char) : Except Fault Stat := do
  let pid ← (Numeral.parse Numeral.limit32 (trim before)).mapError .badPid
  let fields := words behind
  let state ← stateOf fields
  let minorFaults ← field fields 7 "minflt"
  let majorFaults ← field fields 9 "majflt"
  let userTime ← field fields 11 "utime"
  let systemTime ← field fields 12 "stime"
  let threads ← field fields 17 "num_threads"
  return {
    pid, command := String.ofList command, state, minorFaults, majorFaults, userTime, systemTime,
    threads }

theorem parse_eq (text : String) :
    parse text = (split (trim text.toList)).bind fun (before, command, behind) =>
      ofParts before command behind := rfl

theorem ofParts_eq_ok_iff {before command behind : List Char} {s : Stat} :
    ofParts before command behind = .ok s ↔
      Numeral.Denotes (trim before) s.pid ∧ s.pid < 2 ^ 32 ∧ s.command = String.ofList command ∧
        Gives (words behind) s := by
  have hl : 0 < Numeral.limit32 := by decide
  unfold ofParts
  simp only [Except.bind_eq_ok_iff, Except.mapError_eq_ok_iff, Numeral.parse_eq_ok_iff hl,
    stateOf_eq_ok_iff, field_eq_ok_iff]
  constructor
  · rintro ⟨pid, ⟨denotes, fits⟩, state, hs, minor, hm, major, hM, user, hu, sys, hy, threads, ht,
      he⟩
    cases he
    exact ⟨denotes, fits, rfl, hs, hm, hM, hu, hy, ht⟩
  · rintro ⟨denotes, fits, hc, gives⟩
    refine ⟨_, ⟨denotes, fits⟩, _, gives.state, _, gives.minorFaults, _, gives.majorFaults, _,
      gives.userTime, _, gives.systemTime, _, gives.threads, ?_⟩
    rw [← hc]
    rfl

theorem Gives.congr {fields others : List (List Char)} {s : Stat} (h : Gives fields s)
    (same : ∀ i < 18, fields[i]? = others[i]?) : Gives others s := by
  have at' {position n : Nat} (hp : position < 18) (ha : At fields position n) :
      At others position n := by
    unfold At
    rw [← same position hp]
    exact ha
  exact ⟨same 0 (by decide) ▸ h.state, at' (by decide) h.minorFaults, at' (by decide) h.majorFaults,
    at' (by decide) h.userTime, at' (by decide) h.systemTime, at' (by decide) h.threads⟩

theorem parts_trimEnd {rest back : List Char} (h : Parts rest) (blank : Blank back) :
    Parts (trimEnd (rest ++ back)) := by
  cases rest with
  | nil =>
      rw [List.nil_append, trimEnd_blank blank]
      exact nofun
  | cons c rest =>
      obtain ⟨tail, ht⟩ := trimEnd_front (c :: rest ++ back)
      have hp : Parts (c :: rest ++ back) := h
      rw [← ht] at hp
      exact hp.front

/-- No field up to the last one that counts is lost with the blanks at the end of the line, because
that one is a number. -/
theorem Gives.trimmed {fields : List (List Char)} {behind back : List Char} {s : Stat}
    (h : Gives fields s) (worded : Worded fields behind) (blank : Blank back) :
    Gives (words (trimEnd (behind ++ back))) s := by
  obtain ⟨word, hw, denotes, -⟩ := h.threads
  obtain ⟨hlt, hget⟩ := List.getElem?_eq_some_iff.1 hw
  have hfields : fields = fields.take 17 ++ word :: fields.drop 18 := by
    rw [← hget, List.getElem_cons_drop, List.take_append_drop]
  have htake : fields.take 17 ++ [word] = fields.take 18 := by
    rw [← hget, List.take_append_getElem]
  rw [hfields] at worded
  obtain ⟨front, rest, rfl, parts, hwords⟩ := worded.split
  have hlast : ∃ c ∈ (front ++ word).getLast?, isBlank c = false := by
    have hn := denotes.ne_nil
    rw [List.getLast?_append_of_ne_nil front hn]
    exact ⟨word.getLast hn, List.getLast?_eq_getLast_of_ne_nil hn,
      denotes.not_blank _ (List.getLast_mem hn)⟩
  -- The text up to this field ends with a digit, so trimming stops behind it at the latest.
  have hall : words (trimEnd (front ++ word ++ rest ++ back)) =
      fields.take 18 ++ words (trimEnd (rest ++ back)) := by
    rw [List.append_assoc, trimEnd_append hlast, words_append (parts_trimEnd parts blank), hwords,
      htake]
  refine h.congr fun i hi => ?_
  rw [hall, List.getElem?_append_left, List.getElem?_take, if_pos hi]
  rw [List.length_take_of_le hlt]
  exact hi

/-! ## Lines -/

/-- A line is split around its first opening and its last closing parenthesis. -/
theorem split_eq_ok_iff {cs before command behind : List Char} :
    split cs = .ok (before, command, behind) ↔
      cs = before ++ '(' :: (command ++ ')' :: behind) ∧ '(' ∉ before ∧ ')' ∉ behind := by
  constructor
  · intro h
    unfold split at h
    split at h
    · exact nomatch h
    · next hopen =>
      split at h
      · exact nomatch h
      · next hclose =>
        cases h
        obtain ⟨rfl, first⟩ := cutAt_eq_some_iff.1 hopen
        obtain ⟨rfl, last⟩ := cutAtLast_eq_some_iff.1 hclose
        exact ⟨rfl, first, last⟩
  · rintro ⟨rfl, first, last⟩
    unfold split
    rw [cutAt_append _ first]
    dsimp only
    rw [cutAtLast_eq_some_iff.2 ⟨rfl, last⟩]

theorem not_mem_of_blank {c : Char} {cs : List Char} (hc : isBlank c = false) (h : Blank cs) :
    c ∉ cs := fun hm => Bool.false_ne_true (hc.symm.trans (h c hm))

theorem open_not_mem {number gap : List Char} {n : Nat} (denotes : Numeral.Denotes number n)
    (blank : Blank gap) : '(' ∉ number ++ gap := by
  rw [List.mem_append, not_or]
  refine ⟨fun hm => ?_, not_mem_of_blank (by decide) blank⟩
  exact absurd (denotes.plus_or_digit '(' hm) (by decide)

theorem close_not_mem {behind back : List Char} (last : ')' ∉ behind) (blank : Blank back) :
    ')' ∉ behind ++ back := by
  rw [List.mem_append, not_or]
  exact ⟨last, not_mem_of_blank (by decide) blank⟩

theorem parse_of_tells {text : String} {s : Stat} (h : Tells text.toList s) :
    parse text = .ok s := by
  generalize hcs : text.toList = cs at h
  cases h with
  | @line front number gap behind back fields _ blankFront denotes fits blankGap last worded gives
      blankBack =>
      have htrim : trim text.toList =
          number ++ gap ++ '(' :: (s.command.toList ++ ')' :: trimEnd (behind ++ back)) := by
        have hfront := trimEnd_append (a := (number ++ gap ++ '(' :: s.command.toList) ++ [')'])
          ⟨')', List.getLast?_concat, by decide⟩ (behind ++ back)
        simp only [List.append_assoc, List.cons_append, List.nil_append] at hfront ⊢
        rw [hcs, List.append_assoc, trim_append blankFront, hfront]
        rw [List.head?_append_of_ne_nil _ denotes.ne_nil]
        exact fun c hc => denotes.not_blank c (List.mem_of_mem_head? hc)
      have first := open_not_mem denotes blankGap
      have last : ')' ∉ trimEnd (behind ++ back) :=
        fun hm => close_not_mem last blankBack ((trimEnd_front _).subset hm)
      rw [parse_eq, htrim, split_eq_ok_iff.2 ⟨rfl, first, last⟩]
      show ofParts _ _ _ = _
      rw [ofParts_eq_ok_iff]
      have hnumber := trim_between (a := []) nofun (tight_of_forall denotes.not_blank) blankGap
      rw [List.nil_append] at hnumber
      rw [hnumber]
      exact ⟨denotes, fits, String.ofList_toList.symm, gives.trimmed worded blankBack⟩

theorem tells_of_parse {text : String} {s : Stat} (h : parse text = .ok s) :
    Tells text.toList s := by
  rw [parse_eq] at h
  obtain ⟨⟨before, command, behind⟩, hs, hp⟩ := Except.bind_eq_ok_iff.1 h
  obtain ⟨htext, first, last⟩ := split_eq_ok_iff.1 hs
  obtain ⟨denotes, fits, hc, gives⟩ := ofParts_eq_ok_iff.1 hp
  obtain ⟨front, back, blankFront, blankBack, hcs⟩ := exists_blanks text.toList
  obtain ⟨start, gap, blankStart, blankGap, hbefore⟩ := exists_blanks before
  have hline : text.toList = (front ++ start) ++
      (trim before ++ gap ++ '(' :: (s.command.toList ++ ')' :: (behind ++ back))) := by
    rw [hcs, htext, hc, String.toList_ofList]
    nth_rewrite 1 [hbefore]
    simp only [List.append_assoc, List.cons_append]
  rw [hline]
  exact .line (List.forall_mem_append.2 ⟨blankFront, blankStart⟩) denotes fits blankGap last
    (worded_words behind) gives blankBack

/-- The parentheses around the command's name are where the line is split. -/
theorem Tells.split {cs : List Char} {s : Stat} (h : Tells cs s) :
    ∃ before behind back fields,
      Stat.split cs = .ok (before, s.command.toList, behind ++ back) ∧ Worded fields behind ∧
        Gives fields s := by
  cases h with
  | @line front number gap behind back fields _ blankFront denotes fits blankGap last worded gives
      blankBack =>
      have first : '(' ∉ front ++ (number ++ gap) := by
        rw [List.mem_append, not_or]
        exact ⟨not_mem_of_blank (by decide) blankFront, open_not_mem denotes blankGap⟩
      refine ⟨front ++ (number ++ gap), behind, back, fields, ?_, worded, gives⟩
      refine split_eq_ok_iff.2 ⟨?_, first, close_not_mem last blankBack⟩
      rw [List.append_assoc front]

/-- With too few fields behind the command's name nothing is read. -/
theorem exists_fault_of_few {text : String} {before command behind : List Char}
    {fields : List (List Char)} (htext : text.toList = before ++ '(' :: (command ++ ')' :: behind))
    (first : '(' ∉ before) (last : ')' ∉ behind) (worded : Worded fields behind)
    (few : fields.length < 18) : ∃ fault, parse text = .error fault := by
  cases hp : parse text with
  | error fault => exact ⟨fault, rfl⟩
  | ok s =>
      obtain ⟨_, told, back, read, hs, worded', gives⟩ := (tells_of_parse hp).split
      rw [split_eq_ok_iff.2 ⟨htext, first, last⟩] at hs
      cases hs
      obtain ⟨word, hw, -⟩ := gives.threads
      have hle := length_words_le_append told back
      rw [words_of_worded worded, words_of_worded worded'] at hle
      rw [List.getElem?_eq_none (Nat.le_of_lt_succ (Nat.lt_of_le_of_lt hle few))] at hw
      exact nomatch hw

/-! ## Offsets -/

/-- Splitting at the offsets of the parentheses. There is no outcome if a part cannot be cut out. -/
def splitAtOffsets? (cs : List Char) : Option (Except Fault (List Char × List Char × List Char)) :=
  match offset? '(' cs with
  | none => some (.error .noCommand)
  | some first =>
    match (lastOffset? ')' cs).filter (first < ·) with
    | none => some (.error .noCommandEnd)
    | some last => do
      let before ← slice? (String.ofList cs) 0 first
      let command ← slice? (String.ofList cs) (first + 1) last
      let behind ← slice? (String.ofList cs) (last + 1) (size cs)
      return .ok (before.toList, command.toList, behind.toList)

/-- Reading a line that is split at offsets. -/
def parseAtOffsets? (text : String) : Option (Except Fault Stat) :=
  (splitAtOffsets? (trim text.toList)).map fun parts =>
    parts.bind fun (before, command, behind) => ofParts before command behind

/-- A closing parenthesis in front of the name does not end it. -/
theorem lastOffset?_filter {before rest : List Char} (h : ')' ∉ rest) :
    (lastOffset? ')' (before ++ '(' :: rest)).filter (size before < ·) = none := by
  rw [lastOffset?_eq]
  cases hc : cutAtLast ')' (before ++ '(' :: rest) with
  | none => rfl
  | some p =>
      obtain ⟨a, b⟩ := p
      obtain ⟨hab, -⟩ := cutAtLast_eq_some_iff.1 hc
      -- The last closing parenthesis stands in front of the opening one, as the rest has none.
      have hle : size a ≤ size before := by
        rcases List.append_eq_append_iff.1 hab with ⟨x, rfl, hx⟩ | ⟨x, rfl, hx⟩
        · cases x with
          | nil => exact absurd (List.cons.inj hx).1 (by decide)
          | cons c x =>
              cases (List.cons.inj hx).2
              exact absurd (List.mem_append_right x List.mem_cons_self) h
        · rw [size_append]
          exact Nat.le_add_right _ _
      show Option.filter _ (some _) = none
      rw [Option.filter_some, if_neg]
      exact fun hlt => Nat.not_lt.2 hle (of_decide_eq_true hlt)

theorem size_concat {c : Char} (hc : c.utf8Size = 1) (cs : List Char) :
    size (cs ++ [c]) = size cs + 1 := by
  rw [size_append, size_cons, hc]
  rfl

/-- The three parts of a line can be cut out of it. -/
theorem slices (before command behind : List Char) :
    let line := before ++ '(' :: (command ++ ')' :: behind)
    let last := size (before ++ '(' :: command)
    slice? (String.ofList line) 0 (size before) = some (String.ofList before) ∧
      slice? (String.ofList line) (size before + 1) last = some (String.ofList command) ∧
      slice? (String.ofList line) (last + 1) (size line) = some (String.ofList behind) := by
  refine ⟨?_, ?_, ?_⟩
  · exact slice?_append [] before _
  · have hs := slice?_append (before ++ ['(']) command (')' :: behind)
    rw [size_concat (by decide)] at hs
    simpa only [List.append_assoc, List.cons_append, List.nil_append] using hs
  · have hs := slice?_append ((before ++ '(' :: command) ++ [')']) behind []
    rw [size_concat (by decide)] at hs
    simpa only [List.append_assoc, List.cons_append, List.nil_append, List.append_nil] using hs

theorem splitAtOffsets?_eq (cs : List Char) : splitAtOffsets? cs = some (split cs) := by
  unfold splitAtOffsets? split
  rw [offset?_eq]
  cases hopen : cutAt '(' cs with
  | none => rfl
  | some p =>
      obtain ⟨before, rest⟩ := p
      obtain ⟨rfl, first⟩ := cutAt_eq_some_iff.1 hopen
      cases hclose : cutAtLast ')' rest with
      | none =>
          simp only [Option.map_some, lastOffset?_filter (cutAtLast_eq_none_iff.1 hclose), hclose]
      | some q =>
          obtain ⟨command, behind⟩ := q
          obtain ⟨rfl, last⟩ := cutAtLast_eq_some_iff.1 hclose
          have hlast : cutAtLast ')' (before ++ '(' :: (command ++ ')' :: behind)) =
              some (before ++ '(' :: command, behind) :=
            cutAtLast_eq_some_iff.2 ⟨by rw [List.append_assoc, List.cons_append], last⟩
          have hlt : size before < size (before ++ '(' :: command) := by
            rw [size_append, size_cons]
            exact Nat.lt_add_of_pos_right (Nat.add_pos_left (Char.utf8Size_pos '(') _)
          obtain ⟨hbefore, hcommand, hbehind⟩ := slices before command behind
          simp only [Option.map_some, lastOffset?_eq, hlast, Option.filter_some, hlt, decide_true,
            if_true, hbefore, hcommand, hbehind, hclose]
          simp

theorem parseAtOffsets?_eq (text : String) : parseAtOffsets? text = some (parse text) := by
  rw [parseAtOffsets?, splitAtOffsets?_eq, parse_eq]
  rfl

/-- A stat line is read exactly as it is written, whatever the command is named. Without enough
fields it is not read, and no line of any kind is cut at a wrong place. -/
theorem line_read (text : String) :
    (∀ s, parse text = .ok s ↔ Tells text.toList s) ∧
    (∀ before command behind fields, text.toList = before ++ '(' :: (command ++ ')' :: behind) →
      '(' ∉ before → ')' ∉ behind → Worded fields behind → fields.length < 18 →
        ∃ fault, parse text = .error fault) ∧
    parseAtOffsets? text = some (parse text) := by
  refine ⟨fun s => ⟨tells_of_parse, parse_of_tells⟩, ?_, parseAtOffsets?_eq text⟩
  intro before command behind fields htext first last worded few
  exact exists_fault_of_few htext first last worded few

theorem line_read_worker :
    Tells "4242 (a) S (b\n) S 1 4242 4242 0 -1 4194560 3120 0 7 0 250 130 0 0 20 0 9 0\n".toList
        ⟨4242, "a) S (b\n", 'S', 3120, 7, 250, 130, 9⟩ ∧
      (∃ fault, parse "1 (init) S 0 1" = .error fault) ∧
      parseAtOffsets? ")1 (" = some (.error .noCommandEnd) := by
  refine ⟨((line_read _).1 _).1 (by decide +kernel), ?_,
    (line_read ")1 (").2.2.trans (by decide +kernel)⟩
  exact (line_read "1 (init) S 0 1").2.1 "1 ".toList "init".toList " S 0 1".toList
    ["S".toList, "0".toList, "1".toList] (by decide) (by decide) (by decide) (words_eq_iff.1 rfl)
    (by decide)

end Stat
end Telemetry
