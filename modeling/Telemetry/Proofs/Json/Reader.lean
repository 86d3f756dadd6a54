import Mathlib.Tactic.SplitIfs
import Telemetry.Journal.Quoted
/-!
A reader of JSON texts.

The reader keeps what readers often give up: the members of an object stand in a list in the order
of the text, a key that occurs twice is in it twice, and a number is kept as its text. It goes from
characters to tokens and from tokens to a value, one character and one token at a time. An escape of
half a character is not read.

What reads as a value does so wherever a value is due. This is `Reads`, and there is one lemma about
it for each kind of value that a journal writes.
-/

namespace Telemetry

inductive Json where
  | null
  | bool (b : Bool)
  | number (text : String)
  | text (text : String)
  | list (items : List Json)
  | object (members : List (String × Json))

namespace Json

/-! ## Words -/

/-- What stands behind the digits at the front, of which there is at least one. -/
def behindDigits? (cs : List Char) : Option (List Char) :=
  if (cs.takeWhile Char.isDigit).isEmpty then none else some (cs.dropWhile Char.isDigit)

/-- A whole number does not begin with a zero, unless it is zero. -/
def behindWhole? : List Char → Option (List Char)
  | '0' :: cs => some cs
  | cs => behindDigits? cs

def behindFraction? : List Char → Option (List Char)
  | '.' :: cs => behindDigits? cs
  | cs => some cs

def unsigned : List Char → List Char
  | '-' :: cs => cs
  | '+' :: cs => cs
  | cs => cs

def behindExponent? : List Char → Option (List Char)
  | 'e' :: cs => behindDigits? (unsigned cs)
  | 'E' :: cs => behindDigits? (unsigned cs)
  | cs => some cs

/-- Only a minus sign may stand in front of a number. -/
def magnitude : List Char → List Char
  | '-' :: cs => cs
  | cs => cs

def isNumber (cs : List Char) : Bool :=
  ((behindWhole? (magnitude cs)).bind behindFraction?).bind behindExponent? == some []

/-- The value that a word without quotes stands for. -/
def ofWord? (w : List Char) : Option Json :=
  if w = "null".toList then some .null
  else if w = "true".toList then some (.bool true)
  else if w = "false".toList then some (.bool false)
  else if isNumber w then some (.number (String.ofList w))
  else none

theorem ofWord?_number {w : List Char} (h : isNumber w = true) :
    ofWord? w = some (.number (String.ofList w)) := by
  have hne : ∀ word : List Char, isNumber word = false → w ≠ word := by
    rintro word hword rfl
    exact Bool.false_ne_true (hword.symm.trans h)
  rw [ofWord?, if_neg (hne _ (by decide)), if_neg (hne _ (by decide)), if_neg (hne _ (by decide)),
    if_pos h]

/-! ## From characters to tokens -/

inductive Token where
  | mark (c : Char)
  | word (cs : List Char)
  | text (cs : List Char)

def marks : List Char := ['\x7b', '\x7d', '[', ']', ':', ',']

def spaces : List Char := [' ', '\t', '\n', '\r']

def isMark (c : Char) : Bool := c ∈ marks

def isSpace (c : Char) : Bool := c ∈ spaces

/-- Nothing else ends a word. -/
def endsWord (c : Char) : Bool := c ∈ '"' :: marks ++ spaces

/-- Between two tokens, or in one of them behind some of its characters. In the code of an escaped
character that is its value so far and how many digits are due behind the next one. -/
inductive Place where
  | between
  | word (cs : List Char)
  | text (cs : List Char)
  | escape (cs : List Char)
  | code (cs : List Char) (value due : Nat)

def unescape? (c : Char) : Option Char :=
  if c = '"' ∨ c = '\\' ∨ c = '/' then some c
  else if c = 'b' then some '\x08'
  else if c = 'f' then some '\x0c'
  else if c = 'n' then some '\n'
  else if c = 'r' then some '\r'
  else if c = 't' then some '\t'
  else none

def hexValue? (c : Char) : Option Nat :=
  if c.isDigit then some (c.toNat - '0'.toNat)
  else if 'a' ≤ c ∧ c ≤ 'f' then some (c.toNat - 'a'.toNat + 10)
  else if 'A' ≤ c ∧ c ≤ 'F' then some (c.toNat - 'A'.toNat + 10)
  else none

def ofCode? (n : Nat) : Option Char := if n.isValidChar then some (Char.ofNat n) else none

/-- The tokens that a character between two tokens ends, and where it leads. -/
def enter (c : Char) : List Token × Place :=
  if c = '"' then ([], .text [])
  else if isMark c then ([.mark c], .between)
  else if isSpace c then ([], .between)
  else ([], .word [c])

/-- The tokens that a character ends, and where it leads. -/
def advance : Place → Char → Option (List Token × Place)
  | .between, c => some (enter c)
  | .word cs, c =>
    if endsWord c then some (.word cs :: (enter c).1, (enter c).2)
    else some ([], .word (cs ++ [c]))
  | .text cs, c =>
    if c = '"' then some ([.text cs], .between)
    else if c = '\\' then some ([], .escape cs)
    else if c < ' ' then none
    else some ([], .text (cs ++ [c]))
  | .escape cs, c =>
    if c = 'u' then some ([], .code cs 0 3)
    else (unescape? c).map fun d => ([], .text (cs ++ [d]))
  | .code cs value 0, c =>
    ((hexValue? c).bind fun n => ofCode? (16 * value + n)).map fun d => ([], .text (cs ++ [d]))
  | .code cs value (due + 1), c => (hexValue? c).map fun n => ([], .code cs (16 * value + n) due)

def lex : Place → List Char → Option (List Token)
  | .between, [] => some []
  | .word cs, [] => some [.word cs]
  | _, [] => none
  | p, c :: cs => (advance p c).bind fun out => (lex out.2 cs).map fun ts => out.1 ++ ts

/-! ## From tokens to a value -/

/-- A list or an object that has begun, with what stands in it already. -/
inductive Frame where
  | item (before : List Json)
  | member (before : List (String × Json)) (key : String)

inductive Due where
  | value
  | key (before : List (String × Json))
  | colon (before : List (String × Json)) (key : String)
  | next (v : Json)

def accept : Due × List Frame → Token → Option (Due × List Frame)
  | (.value, fs), .word w => (ofWord? w).map fun v => (.next v, fs)
  | (.value, fs), .text cs => some (.next (.text (String.ofList cs)), fs)
  | (.value, fs), .mark '[' => some (.value, .item [] :: fs)
  | (.value, .item [] :: fs), .mark ']' => some (.next (.list []), fs)
  | (.value, fs), .mark '\x7b' => some (.key [], fs)
  | (.key before, fs), .text cs => some (.colon before (String.ofList cs), fs)
  | (.key [], fs), .mark '\x7d' => some (.next (.object []), fs)
  | (.colon before key, fs), .mark ':' => some (.value, .member before key :: fs)
  | (.next v, .item before :: fs), .mark ',' => some (.value, .item (before ++ [v]) :: fs)
  | (.next v, .item before :: fs), .mark ']' => some (.next (.list (before ++ [v])), fs)
  | (.next v, .member before key :: fs), .mark ',' => some (.key (before ++ [(key, v)]), fs)
  | (.next v, .member before key :: fs), .mark '\x7d' =>
    some (.next (.object (before ++ [(key, v)])), fs)
  | _, _ => none

def parse (ts : List Token) : Option Json :=
  match ts.foldlM accept (.value, []) with
  | some (.next v, []) => some v
  | _ => none

/-- The value of a text, if it is the text of one value. -/
def read (cs : List Char) : Option Json := (lex .between cs).bind parse

/-! ## Tokens of quoted texts and words -/

theorem lex_cons (p : Place) (c : Char) (cs : List Char) :
    lex p (c :: cs) = (advance p c).bind fun out => (lex out.2 cs).map fun ts => out.1 ++ ts := by
  cases p <;> rfl

theorem lex_mark {c : Char} (h : isMark c = true) (rest : List Char) :
    lex .between (c :: rest) = (lex .between rest).map fun ts => .mark c :: ts := by
  have hq : c ≠ '"' := by
    rintro rfl
    exact absurd h (by decide)
  rw [lex_cons, advance, enter, if_neg hq, if_pos h]
  rfl

theorem hexValue?_hexDigit : ∀ n < 16, hexValue? (Quoted.hexDigit n) = some n := by decide

theorem ofCode?_toNat (c : Char) : ofCode? c.toNat = some c := by
  have hv : c.toNat.isValidChar := c.valid
  unfold ofCode?
  rw [if_pos hv, Char.ofNat_toNat]

theorem lex_plain {cs : List Char} {c : Char} (hq : c ≠ '"') (hb : c ≠ '\\') (hs : ¬c < ' ')
    (rest : List Char) : lex (.text cs) (c :: rest) = lex (.text (cs ++ [c])) rest := by
  rw [lex_cons, advance, if_neg hq, if_neg hb, if_neg hs]
  simp

theorem lex_escape {cs : List Char} {c d : Char} (hu : c ≠ 'u') (h : unescape? c = some d)
    (rest : List Char) : lex (.text cs) ('\\' :: c :: rest) = lex (.text (cs ++ [d])) rest := by
  rw [lex_cons, advance, if_neg (by decide), if_pos rfl, Option.bind_some, lex_cons, advance,
    if_neg hu, h]
  simp

theorem lex_code {cs : List Char} {c : Char} (hc : c.toNat < 256) (rest : List Char) :
    lex (.text cs) (['\\', 'u', '0', '0', Quoted.hexDigit (c.toNat / 16),
      Quoted.hexDigit (c.toNat % 16)] ++ rest) = lex (.text (cs ++ [c])) rest := by
  have hhigh := hexValue?_hexDigit (c.toNat / 16) (by omega)
  have hlow := hexValue?_hexDigit (c.toNat % 16) (by omega)
  have hzero : hexValue? '0' = some 0 := by decide
  have hcode : ofCode? (16 * (c.toNat / 16) + c.toNat % 16) = some c := by
    have hn : 16 * (c.toNat / 16) + c.toNat % 16 = c.toNat := by omega
    rw [hn, ofCode?_toNat]
  simp [lex_cons, advance, hhigh, hlow, hzero, hcode, Function.comp_def]

/-- An escaped character is read as itself. -/
theorem lex_inside (cs : List Char) (c : Char) (rest : List Char) :
    lex (.text cs) (Quoted.inside c ++ rest) = lex (.text (cs ++ [c])) rest := by
  unfold Quoted.inside Quoted.escape?
  split_ifs with hq hb hs hbackspace htab hnewline hpage hreturn
  · subst hq
    exact lex_escape (by decide) (by decide) rest
  · subst hb
    exact lex_escape (by decide) (by decide) rest
  · exact lex_plain hq hb (Char.not_lt.2 hs) rest
  · subst hbackspace
    exact lex_escape (by decide) (by decide) rest
  · subst htab
    exact lex_escape (by decide) (by decide) rest
  · subst hnewline
    exact lex_escape (by decide) (by decide) rest
  · subst hpage
    exact lex_escape (by decide) (by decide) rest
  · subst hreturn
    exact lex_escape (by decide) (by decide) rest
  · have hc : c.toNat < 32 := Nat.lt_of_not_le hs
    exact lex_code (by omega) rest

theorem lex_flatMap_inside (before cs rest : List Char) :
    lex (.text before) (cs.flatMap Quoted.inside ++ rest) = lex (.text (before ++ cs)) rest := by
  induction cs generalizing before with
  | nil => simp
  | cons c cs ih =>
    rw [List.flatMap_cons, List.append_assoc, lex_inside, ih]
    simp

theorem lex_text (cs rest : List Char) :
    lex .between (Quoted.text cs ++ rest) =
      (lex .between rest).map fun ts => .text cs :: ts := by
  unfold Quoted.text
  rw [List.cons_append, List.cons_append, List.append_assoc, lex_cons, advance, enter, if_pos rfl,
    Option.bind_some, lex_flatMap_inside, List.singleton_append, lex_cons, advance, if_pos rfl]
  simp [Function.comp_def]

/-- Nothing follows, or a mark does. -/
def Stops (rest : List Char) : Prop := ∀ c cs, rest = c :: cs → isMark c = true

theorem stops_nil : Stops [] := fun _ _ h => nomatch h

theorem stops_mark {c : Char} (h : isMark c = true) (rest : List Char) : Stops (c :: rest) := by
  intro d ds he
  cases he
  exact h

theorem lex_word_end {w rest : List Char} (hs : Stops rest) :
    lex (.word w) rest = (lex .between rest).map fun ts => .word w :: ts := by
  cases rest with
  | nil => rfl
  | cons c cs =>
    have hm := hs c cs rfl
    have he : endsWord c = true := by
      rw [isMark, decide_eq_true_iff] at hm
      simp [endsWord, hm]
    rw [lex_cons, advance, if_pos he, lex_cons, advance]
    simp [Option.map_map, Function.comp_def]

theorem lex_word_append {before w : List Char} (plain : ∀ c ∈ w, endsWord c = false)
    (rest : List Char) : lex (.word before) (w ++ rest) = lex (.word (before ++ w)) rest := by
  induction w generalizing before with
  | nil => simp
  | cons c w ih =>
    rw [List.forall_mem_cons] at plain
    rw [List.cons_append, lex_cons, advance, plain.1]
    simp [ih plain.2]

theorem lex_word {w rest : List Char} (plain : ∀ c ∈ w, endsWord c = false) (hn : w ≠ [])
    (hs : Stops rest) :
    lex .between (w ++ rest) = (lex .between rest).map fun ts => .word w :: ts := by
  obtain ⟨c, w, rfl⟩ := List.exists_cons_of_ne_nil hn
  rw [List.forall_mem_cons] at plain
  have hc : c ≠ '"' ∧ isMark c = false ∧ isSpace c = false := by
    simpa [endsWord, isMark, isSpace] using plain.1
  rw [List.cons_append, lex_cons, advance, enter, if_neg hc.1, hc.2.1, hc.2.2]
  simp [lex_word_append plain.2, lex_word_end hs, Function.comp_def]

/-! ## What reads as a value -/

/-- Wherever a value is due, this text is read as the value. -/
def Reads (cs : List Char) (v : Json) : Prop :=
  ∃ ts, (∀ rest, Stops rest → lex .between (cs ++ rest) = (lex .between rest).map fun us => ts ++ us) ∧
    ∀ fs, ts.foldlM accept (.value, fs) = some (.next v, fs)

theorem Reads.read {cs : List Char} {v : Json} (h : Reads cs v) : read cs = some v := by
  obtain ⟨ts, hlex, hparse⟩ := h
  have hl := hlex [] stops_nil
  rw [List.append_nil] at hl
  unfold Json.read
  rw [hl]
  show parse (ts ++ []) = some v
  rw [List.append_nil, parse, hparse]

/-- An object behind a value is one value too many. -/
theorem Reads.read_append {cs : List Char} {v : Json} (h : Reads cs v) (rest : List Char) :
    Json.read (cs ++ '\x7b' :: rest) = none := by
  obtain ⟨ts, hlex, hparse⟩ := h
  have hm : isMark '\x7b' = true := by decide
  unfold Json.read
  rw [hlex _ (stops_mark hm rest), lex_mark hm]
  cases lex .between rest with
  | none => rfl
  | some us =>
    show parse (ts ++ .mark '\x7b' :: us) = none
    rw [parse, List.foldlM_append, hparse]
    rfl

theorem reads_text (s : String) : Reads (Quoted.text s.toList) (.text s) := by
  refine ⟨[.text s.toList], fun rest _ => lex_text s.toList rest, fun fs => ?_⟩
  show some (Due.next (.text (String.ofList s.toList)), fs) = _
  rw [String.ofList_toList]

theorem reads_word {w : List Char} {v : Json} (plain : ∀ c ∈ w, endsWord c = false) (hn : w ≠ [])
    (h : ofWord? w = some v) : Reads w v := by
  refine ⟨[.word w], fun rest hs => lex_word plain hn hs, fun fs => ?_⟩
  show ((ofWord? w).map fun v => (Due.next v, fs)).bind some = _
  rw [h]
  rfl

/-! ## Objects -/

def memberText (key : String) (value : List Char) : List Char := Quoted.text key.toList ++ ':' :: value

/-- Members with commas between them, and the brace behind them. -/
def membersText : List (String × List Char) → List Char
  | [] => ['\x7d']
  | [m] => memberText m.1 m.2 ++ ['\x7d']
  | m :: n :: ms => memberText m.1 m.2 ++ ',' :: membersText (n :: ms)

def objectText (ms : List (String × List Char)) : List Char := '\x7b' :: membersText ms

/-- Wherever a key is due, this text is read as the members that are left and the end of the
object. -/
def ReadsMembers (cs : List Char) (ms : List (String × Json)) : Prop :=
  ∃ ts, (∀ rest, lex .between (cs ++ rest) = (lex .between rest).map fun us => ts ++ us) ∧
    ∀ before fs, ts.foldlM accept (.key before, fs) = some (.next (.object (before ++ ms)), fs)

/-- A member with what follows it. -/
theorem reads_member {value : List Char} {v : Json} (h : Reads value v) (key : String) :
    ∃ ts, (∀ c rest, isMark c = true → lex .between (memberText key value ++ c :: rest) =
        (lex .between rest).map fun us => ts ++ .mark c :: us) ∧
      ∀ before fs, ts.foldlM accept (.key before, fs) = some (.next v, .member before key :: fs) := by
  obtain ⟨ts, hlex, hparse⟩ := h
  refine ⟨.text key.toList :: .mark ':' :: ts, fun c rest hc => ?_, fun before fs => ?_⟩
  · unfold memberText
    rw [List.append_assoc, lex_text, List.cons_append, lex_mark (by decide),
      hlex _ (stops_mark hc rest), lex_mark hc]
    simp [Option.map_map, Function.comp_def]
  · show ts.foldlM accept (.value, .member before (String.ofList key.toList) :: fs) = _
    rw [String.ofList_toList, hparse]

theorem readsMembers_last {value : List Char} {v : Json} (h : Reads value v) (key : String) :
    ReadsMembers (memberText key value ++ ['\x7d']) [(key, v)] := by
  obtain ⟨ts, hlex, hparse⟩ := reads_member h key
  refine ⟨ts ++ [.mark '\x7d'], fun rest => ?_, fun before fs => ?_⟩
  · rw [List.append_assoc, List.singleton_append, hlex _ _ (by decide)]
    simp
  · rw [List.foldlM_append, hparse]
    rfl

theorem ReadsMembers.cons {value cs : List Char} {v : Json} {ms : List (String × Json)}
    (hm : ReadsMembers cs ms) (h : Reads value v) (key : String) :
    ReadsMembers (memberText key value ++ ',' :: cs) ((key, v) :: ms) := by
  obtain ⟨ts, hlex, hparse⟩ := reads_member h key
  obtain ⟨us, hlex', hparse'⟩ := hm
  refine ⟨ts ++ .mark ',' :: us, fun rest => ?_, fun before fs => ?_⟩
  · rw [List.append_assoc, List.cons_append, hlex _ _ (by decide), hlex']
    simp [Option.map_map, Function.comp_def]
  · rw [List.foldlM_append, hparse]
    show us.foldlM accept (.key (before ++ [(key, v)]), fs) = _
    rw [hparse', List.append_assoc]
    rfl

theorem readsMembers_membersText {ms : List (String × List Char × Json)} (hn : ms ≠ [])
    (h : ∀ m ∈ ms, Reads m.2.1 m.2.2) :
    ReadsMembers (membersText (ms.map fun m => (m.1, m.2.1))) (ms.map fun m => (m.1, m.2.2)) := by
  induction ms with
  | nil => exact absurd rfl hn
  | cons m ms ih =>
    rw [List.forall_mem_cons] at h
    cases ms with
    | nil => exact readsMembers_last h.1 m.1
    | cons n ms => exact (ih (List.cons_ne_nil n ms) h.2).cons h.1 m.1

/-- Members whose values read make an object that reads. -/
theorem reads_object {ms : List (String × List Char × Json)} (h : ∀ m ∈ ms, Reads m.2.1 m.2.2) :
    Reads (objectText (ms.map fun m => (m.1, m.2.1))) (.object (ms.map fun m => (m.1, m.2.2))) := by
  have hopen : isMark '\x7b' = true := by decide
  by_cases hn : ms = []
  · subst hn
    refine ⟨[.mark '\x7b', .mark '\x7d'], fun rest _ => ?_, fun fs => rfl⟩
    show lex .between ('\x7b' :: '\x7d' :: rest) = _
    rw [lex_mark hopen, lex_mark (by decide)]
    simp [Option.map_map, Function.comp_def]
  · obtain ⟨ts, hlex, hparse⟩ := readsMembers_membersText hn h
    refine ⟨.mark '\x7b' :: ts, fun rest _ => ?_, fun fs => hparse [] fs⟩
    unfold objectText
    rw [List.cons_append, lex_mark hopen, hlex]
    simp [Option.map_map, Function.comp_def]

end Json
end Telemetry
