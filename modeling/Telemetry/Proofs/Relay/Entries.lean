import Telemetry.Proofs.Relay.Spans
/-!
Settings as the entries of a mapping give them.

What an entry says does not depend on the entries before it: it names one setting and has a value
for it, or it is to blame for an error. So the entries can be looked at one by one. The last one for
a setting gives its value, and the first one to blame gives the error.
-/

namespace Telemetry

theorem Network.ofText?_eq_none_iff {s : String} :
    Network.ofText? s = none ↔ s ∉ ["tcp", "tcp4", "tcp6", "unix"] := by
  simp only [Network.ofText?, List.mem_cons, List.not_mem_nil, or_false, not_or]
  constructor
  · intro h
    refine ⟨?_, ?_, ?_, ?_⟩ <;> rintro rfl <;> exact nomatch h
  · rintro ⟨h₁, h₂, h₃, h₄⟩
    rw [if_neg h₁, if_neg h₂, if_neg h₃, if_neg h₄]

namespace Settings

/-! ## Values -/

/-- The kinds of values that settings have. -/
inductive Kind where
  | text
  | size
  | span

inductive Value where
  | text (s : String)
  | size (n : Nat)
  | span (t : Duration)

def Kind.read : Kind → Yaml → Except EntryFault Value
  | .text, v => (readText v).map .text
  | .size, v => (readSize v).map .size
  | .span, v => (readSpan v).map .span

/-- What a value of YAML means for a setting of some kind. -/
inductive Converts : Kind → Yaml → Value → Prop
  | text (s : String) : Converts .text (.text s) (.text s)
  | number (i : Int) : Converts .text (.integer i) (.text (toString i))
  | numeral {s : String} {n : Nat} (denotes : Numeral.Denotes s.toList n) (fits : n < 2 ^ 64) :
      Converts .size (.text s) (.size n)
  | size (n : Nat) : Converts .size (.integer n) (.size n)
  | interval {s : String} {t : Duration} (means : Interval.Means s t) :
      Converts .span (.text s) (.span t)
  | seconds (n : Nat) : Converts .span (.integer n) (.span (.ofSeconds n))

theorem readSize_integer_eq_ok_iff {i : Int} {n : Nat} :
    readSize (.integer i) = .ok n ↔ ∃ m : Nat, i = m ∧ n = m :=
  natural_eq_ok_iff id

theorem readSize_text_eq_ok_iff {s : String} {n : Nat} :
    readSize (.text s) = .ok n ↔ Numeral.Denotes s.toList n ∧ n < 2 ^ 64 := by
  have hl : 0 < Numeral.limit64 := by decide
  exact Except.mapError_eq_ok_iff.trans (Numeral.parse_eq_ok_iff hl)

theorem Kind.read_of_converts {kind : Kind} {v : Yaml} {x : Value} (h : Converts kind v x) :
    kind.read v = .ok x := by
  cases h with
  | text s => rfl
  | number i => rfl
  | numeral denotes fits =>
      exact Except.map_eq_ok_iff.2 ⟨_, readSize_text_eq_ok_iff.2 ⟨denotes, fits⟩, rfl⟩
  | size n => exact Except.map_eq_ok_iff.2 ⟨n, readSize_integer_eq_ok_iff.2 ⟨n, rfl, rfl⟩, rfl⟩
  | interval means => exact Except.map_eq_ok_iff.2 ⟨_, readSpan_text_eq_ok_iff.2 means, rfl⟩
  | seconds n => exact Except.map_eq_ok_iff.2 ⟨_, readSpan_integer_eq_ok_iff.2 ⟨n, rfl, rfl⟩, rfl⟩

theorem Kind.converts_of_read {kind : Kind} {v : Yaml} {x : Value} (h : kind.read v = .ok x) :
    Converts kind v x := by
  cases kind with
  | text =>
      obtain ⟨s, hs, rfl⟩ := Except.map_eq_ok_iff.1 h
      cases v with
      | text => cases hs; exact .text s
      | integer i => cases hs; exact .number i
      | _ => exact nomatch hs
  | size =>
      obtain ⟨n, hn, rfl⟩ := Except.map_eq_ok_iff.1 h
      cases v with
      | text s =>
          obtain ⟨denotes, fits⟩ := readSize_text_eq_ok_iff.1 hn
          exact .numeral denotes fits
      | integer i =>
          obtain ⟨m, rfl, rfl⟩ := readSize_integer_eq_ok_iff.1 hn
          exact .size n
      | _ => exact nomatch hn
  | span =>
      obtain ⟨t, ht, rfl⟩ := Except.map_eq_ok_iff.1 h
      cases v with
      | text s => exact .interval (readSpan_text_eq_ok_iff.1 ht)
      | integer i =>
          obtain ⟨m, rfl, rfl⟩ := readSpan_integer_eq_ok_iff.1 ht
          exact .seconds m
      | _ => exact nomatch ht

theorem Kind.read_eq_ok_iff {kind : Kind} {v : Yaml} {x : Value} :
    kind.read v = .ok x ↔ Converts kind v x :=
  ⟨converts_of_read, read_of_converts⟩

/-! ## Single entries -/

def Key.kind : Key → Kind
  | .network | .address | .scope | .threadName => .text
  | .bufferSize | .queueSize => .size
  | .retryMin | .retryMax | .flushInterval | .writeTimeout => .span

/-- The value of a setting for which there is no entry. -/
def Key.initial : Key → Value
  | .network => .text "tcp"
  | .address | .scope | .threadName => .text ""
  | .bufferSize | .queueSize => .size 0
  | .retryMin | .retryMax | .flushInterval | .writeTimeout => .span .zero

/-- The key of an entry is, in lower case and with underscores for hyphens, a name of the
setting. -/
def Names (e : Yaml × Yaml) (k : Key) : Prop :=
  ∃ raw, e.1 = .text raw ∧ (Key.normalize raw, k) ∈ Key.names

def Readable (e : Yaml × Yaml) : Prop :=
  ∃ k x, Names e k ∧ Converts k.kind e.2 x

/-- The error that an entry is to blame for. A key that is a text is told with it. -/
inductive Blames : Yaml × Yaml → Fault → Prop
  | key {e : Yaml × Yaml} (other : ∀ raw, e.1 ≠ .text raw) : Blames e .keyNotText
  | unknown {raw : String} {v : Yaml} (unknown : ∀ k, ¬ Names (.text raw, v) k) :
      Blames (.text raw, v) (.entry raw (.unknownKey raw))
  | value {raw : String} {v : Yaml} {k : Key} {fault : EntryFault} (names : Names (.text raw, v) k)
      (refused : k.kind.read v = .error fault) : Blames (.text raw, v) (.entry raw fault)

theorem Key.ofText?_eq_some_iff {raw : String} {k : Key} :
    ofText? raw = some k ↔ (normalize raw, k) ∈ names :=
  lookup_eq_some_iff_mem (by decide)

theorem names_text_iff {raw : String} {v : Yaml} {k : Key} :
    Names (.text raw, v) k ↔ Key.ofText? raw = some k := by
  rw [Key.ofText?_eq_some_iff]
  constructor
  · rintro ⟨_, h, hk⟩
    cases h
    exact hk
  · intro hk
    exact ⟨raw, rfl, hk⟩

/-- An entry names one setting only. -/
theorem Names.unique {e : Yaml × Yaml} {k k' : Key} (h : Names e k) (h' : Names e k') : k = k' := by
  obtain ⟨raw, he, hk⟩ := h
  obtain ⟨raw', he', hk'⟩ := h'
  cases he.symm.trans he'
  exact Option.some.inj ((Key.ofText?_eq_some_iff.2 hk).symm.trans (Key.ofText?_eq_some_iff.2 hk'))

namespace Draft

def value (d : Draft) : Key → Value
  | .network => .text d.network
  | .address => .text (d.address.getD "")
  | .scope => .text d.scope
  | .bufferSize => .size d.settings.bufferSize
  | .queueSize => .size d.settings.queueSize
  | .retryMin => .span d.settings.retryMin
  | .retryMax => .span d.settings.retryMax
  | .flushInterval => .span d.settings.flushInterval
  | .writeTimeout => .span d.settings.writeTimeout
  | .threadName => .text d.settings.threadName

/-- One draft follows another in which only one setting has changed. -/
structure Sets (d d' : Draft) (k : Key) : Prop where
  others : ∀ k', k' ≠ k → d'.value k' = d.value k'
  address : d'.address.isSome ↔ k = .address ∨ d.address.isSome

/-- Setting a value reads it as one of the key's kind, and changes nothing else. -/
theorem set_eq_ok {d d' : Draft} {k : Key} {v : Yaml} (h : d.set k v = .ok d') :
    k.kind.read v = .ok (d'.value k) ∧ d.Sets d' k := by
  cases k <;>
    · obtain ⟨x, hx, rfl⟩ := Except.map_eq_ok_iff.1 h
      refine ⟨Except.map_eq_ok_iff.2 ⟨x, hx, rfl⟩, fun k' hk => ?_, by simp⟩
      cases k' <;> first | rfl | exact absurd rfl hk

theorem set_eq_error_iff {d : Draft} {k : Key} {v : Yaml} {fault : EntryFault} :
    d.set k v = .error fault ↔ k.kind.read v = .error fault := by
  cases k <;> exact Except.map_eq_error_iff.trans Except.map_eq_error_iff.symm

theorem entry_eq_ok {d d' : Draft} {e : Yaml × Yaml} (h : d.entry e.1 e.2 = .ok d') :
    ∃ k, Names e k ∧ Converts k.kind e.2 (d'.value k) ∧ d.Sets d' k := by
  obtain ⟨key, v⟩ := e
  cases key with
  | text raw =>
      simp only [entry] at h
      split at h
      · next k hk =>
        obtain ⟨hv, hs⟩ := set_eq_ok (Except.mapError_eq_ok_iff.1 h)
        exact ⟨k, names_text_iff.2 hk, Kind.read_eq_ok_iff.1 hv, hs⟩
      · exact nomatch h
  | _ => exact nomatch h

theorem blames_of_entry {d : Draft} {e : Yaml × Yaml} {f : Fault}
    (h : d.entry e.1 e.2 = .error f) : Blames e f := by
  obtain ⟨key, v⟩ := e
  cases key with
  | text raw =>
      simp only [entry] at h
      split at h
      · next k hk =>
        obtain ⟨fault, hf, rfl⟩ := Except.mapError_eq_error_iff.1 h
        exact .value (names_text_iff.2 hk) (set_eq_error_iff.1 hf)
      · next hnone =>
        cases h
        refine .unknown fun k hk => ?_
        exact nomatch hnone.symm.trans (names_text_iff.1 hk)
  | _ =>
      cases h
      exact .key nofun

theorem entry_of_blames {d : Draft} {e : Yaml × Yaml} {f : Fault} (h : Blames e f) :
    d.entry e.1 e.2 = .error f := by
  cases h with
  | key other =>
      unfold entry
      split
      · next raw he => exact absurd he (other raw)
      · rfl
  | @unknown raw _ unknown =>
      have hn : Key.ofText? raw = none :=
        Option.eq_none_iff_forall_ne_some.2 fun k hk => unknown k (names_text_iff.2 hk)
      simp only [entry, hn]
  | value names refused =>
      simp only [entry, names_text_iff.1 names]
      exact Except.mapError_eq_error_iff.2 ⟨_, set_eq_error_iff.2 refused, rfl⟩

/-- Whether an entry is to blame does not depend on what has been read before it. -/
theorem entry_eq_error_iff {d : Draft} {e : Yaml × Yaml} {f : Fault} :
    d.entry e.1 e.2 = .error f ↔ Blames e f :=
  ⟨blames_of_entry, entry_of_blames⟩

end Draft

/-- An entry can be read, or it is to blame. -/
theorem readable_iff {e : Yaml × Yaml} : Readable e ↔ ∀ f, ¬ Blames e f := by
  constructor
  · rintro ⟨k, x, hk, hx⟩ f hf
    cases hf with
    | key other =>
        obtain ⟨raw, he, -⟩ := hk
        exact other raw he
    | unknown unknown => exact unknown k hk
    | value names refused =>
        cases names.unique hk
        exact nomatch refused.symm.trans (Kind.read_eq_ok_iff.2 hx)
  · intro h
    cases hd : Draft.blank.entry e.1 e.2 with
    | ok d =>
        obtain ⟨k, hk, hx, -⟩ := Draft.entry_eq_ok hd
        exact ⟨k, _, hk, hx⟩
    | error f => exact absurd (Draft.entry_eq_error_iff.1 hd) (h f)

/-! ## Entries in order -/

/-- The last entry for a setting. -/
def Last (k : Key) (es : List (Yaml × Yaml)) (e : Yaml × Yaml) : Prop :=
  Names e k ∧ ∃ before behind, es = before ++ e :: behind ∧ ∀ e' ∈ behind, ¬ Names e' k

namespace Last

variable {k : Key} {es : List (Yaml × Yaml)} {e e' : Yaml × Yaml}

theorem mem (h : Last k es e) : e ∈ es := by
  obtain ⟨-, before, behind, rfl, -⟩ := h
  exact List.mem_append_right before List.mem_cons_self

theorem concat (h : Names e k) : Last k (es ++ [e]) e :=
  ⟨h, es, [], rfl, nofun⟩

theorem concat_other (h : Last k es e) (he : ¬ Names e' k) : Last k (es ++ [e']) e := by
  obtain ⟨hn, before, behind, rfl, hl⟩ := h
  refine ⟨hn, before, behind ++ [e'], by rw [List.append_assoc, List.cons_append], ?_⟩
  exact List.forall_mem_append.2 ⟨hl, List.forall_mem_singleton.2 he⟩

/-- Of two last entries neither is behind the other. -/
theorem unique (h : Last k es e) (h' : Last k es e') : e = e' := by
  have same {b c : Yaml × Yaml} {before bs cs : List (Yaml × Yaml)} (h : b :: bs = before ++ c :: cs)
      (hc : Names c k) (hb : ∀ e ∈ bs, ¬ Names e k) : b = c := by
    cases before with
    | nil => exact (List.cons.inj h).1
    | cons e before =>
        have hm : c ∈ bs := (List.cons.inj h).2 ▸ List.mem_append_right before List.mem_cons_self
        exact absurd hc (hb c hm)
  obtain ⟨hn, before, behind, hs, hl⟩ := h
  obtain ⟨hn', before', behind', hs', hl'⟩ := h'
  rcases List.append_eq_append_iff.1 (hs.symm.trans hs') with ⟨between, -, h⟩ | ⟨between, -, h⟩
  · exact same h hn' hl
  · exact (same h hn hl').symm

end Last

/-- The value that entries give a setting: the one in the last entry for it, or the initial one. -/
inductive Gives (k : Key) (es : List (Yaml × Yaml)) (x : Value) : Prop
  | last {e : Yaml × Yaml} (last : Last k es e) (converts : Converts k.kind e.2 x)
  | initial (never : ∀ e ∈ es, ¬ Names e k) (value : x = k.initial)

namespace Gives

variable {k : Key} {es : List (Yaml × Yaml)} {e : Yaml × Yaml} {x y : Value}

theorem concat (h : Gives k es x) (he : ¬ Names e k) : Gives k (es ++ [e]) x := by
  cases h with
  | last last converts => exact .last (last.concat_other he) converts
  | initial never value =>
      exact .initial (List.forall_mem_append.2 ⟨never, List.forall_mem_singleton.2 he⟩) value

theorem unique (hx : Gives k es x) (hy : Gives k es y) : x = y := by
  cases hx with
  | last last converts =>
      cases hy with
      | last last' converts' =>
          cases last.unique last'
          have hr := (Kind.read_eq_ok_iff.2 converts).symm.trans (Kind.read_eq_ok_iff.2 converts')
          exact Except.ok.inj hr
      | initial never value => exact absurd last.1 (never _ last.mem)
  | initial never value =>
      cases hy with
      | last last' converts' => exact absurd last'.1 (never _ last'.mem)
      | initial never' value' => exact value.trans value'.symm

/-- Where no two entries are for one setting, their order does not matter. -/
theorem iff_of_distinct (h : es.Pairwise fun a b => ∀ k, Names a k → ¬ Names b k) :
    Gives k es x ↔ (∃ e ∈ es, Names e k ∧ Converts k.kind e.2 x) ∨
      (∀ e ∈ es, ¬ Names e k) ∧ x = k.initial := by
  constructor
  · intro hg
    cases hg with
    | last last converts => exact .inl ⟨_, last.mem, last.1, converts⟩
    | initial never value => exact .inr ⟨never, value⟩
  · rintro (⟨e, hm, names, converts⟩ | ⟨never, value⟩)
    · obtain ⟨before, behind, rfl⟩ := List.append_of_mem hm
      have hlater := (List.pairwise_cons.1 (List.pairwise_append.1 h).2.1).1
      exact .last ⟨names, before, behind, rfl, fun e' he' => hlater e' he' k names⟩ converts
    · exact .initial never value

end Gives
namespace Draft

/-- The draft is what the entries give. -/
structure Holds (d : Draft) (es : List (Yaml × Yaml)) : Prop where
  gives : ∀ k, Gives k es (d.value k)
  addressed : d.address.isSome ↔ ∃ e ∈ es, Names e .address

theorem holds_blank : blank.Holds [] where
  gives k := by cases k <;> exact .initial nofun rfl
  addressed := ⟨nofun, nofun⟩

theorem Holds.entry {d d' : Draft} {past : List (Yaml × Yaml)} {e : Yaml × Yaml} (h : d.Holds past)
    (hd : d.entry e.1 e.2 = .ok d') : d'.Holds (past ++ [e]) := by
  obtain ⟨k, hk, hx, hs⟩ := entry_eq_ok hd
  constructor
  case gives =>
    intro k'
    by_cases hkk : k' = k
    · rw [hkk]
      exact .last (.concat hk) hx
    · rw [hs.others k' hkk]
      exact (h.gives k').concat fun hk' => hkk (hk'.unique hk)
  case addressed =>
    rw [hs.address, h.addressed]
    simp only [List.mem_append, List.mem_singleton]
    constructor
    · rintro (rfl | ⟨e', hm, he'⟩)
      · exact ⟨e, .inr rfl, hk⟩
      · exact ⟨e', .inl hm, he'⟩
    · rintro ⟨e', hm | rfl, he'⟩
      · exact .inr ⟨e', hm, he'⟩
      · exact .inl (hk.unique he')

theorem entries_cons {d : Draft} {e : Yaml × Yaml} {es : List (Yaml × Yaml)} :
    d.entries (e :: es) = (d.entry e.1 e.2).bind fun d => d.entries es := by
  cases hd : d.entry e.1 e.2 with
  | ok d' => simp only [entries, hd]; rfl
  | error f => simp only [entries, hd]; rfl

/-- All entries that are read are readable, and the draft is what they give. -/
theorem Holds.entries {d d' : Draft} {past es : List (Yaml × Yaml)} (h : d.Holds past)
    (hd : d.entries es = .ok d') : d'.Holds (past ++ es) ∧ ∀ e ∈ es, Readable e := by
  induction es generalizing d past with
  | nil =>
      cases hd
      rw [List.append_nil]
      exact ⟨h, nofun⟩
  | cons e es ih =>
      rw [entries_cons] at hd
      cases he : d.entry e.1 e.2 with
      | ok next =>
          rw [he] at hd
          obtain ⟨hh, hr⟩ := ih (h.entry he) hd
          obtain ⟨k, hk, hx, -⟩ := entry_eq_ok he
          rw [List.append_assoc, List.singleton_append] at hh
          exact ⟨hh, List.forall_mem_cons.2 ⟨⟨k, _, hk, hx⟩, hr⟩⟩
      | error f =>
          rw [he] at hd
          exact nomatch hd

/-- The first entry to blame ends the reading. -/
theorem entries_eq_error_iff {d : Draft} {es : List (Yaml × Yaml)} {f : Fault} :
    d.entries es = .error f ↔
      ∃ before e behind, es = before ++ e :: behind ∧ (∀ e' ∈ before, Readable e') ∧ Blames e f := by
  induction es generalizing d with
  | nil =>
      refine ⟨nofun, ?_⟩
      rintro ⟨before, e, behind, h, -⟩
      exact absurd h.symm (List.append_ne_nil_of_right_ne_nil before (List.cons_ne_nil e behind))
  | cons e es ih =>
      rw [entries_cons]
      cases he : d.entry e.1 e.2 with
      | ok next =>
          obtain ⟨k, hk, hx, -⟩ := entry_eq_ok he
          have hr : Readable e := ⟨k, _, hk, hx⟩
          refine Iff.trans ih ⟨?_, ?_⟩
          · rintro ⟨before, e', behind, rfl, hb, hf⟩
            exact ⟨e :: before, e', behind, rfl, List.forall_mem_cons.2 ⟨hr, hb⟩, hf⟩
          · rintro ⟨before, e', behind, hs, hb, hf⟩
            cases before with
            | nil =>
                cases hs
                exact absurd hf (readable_iff.1 hr f)
            | cons b before =>
                cases hs
                exact ⟨before, e', behind, rfl, (List.forall_mem_cons.1 hb).2, hf⟩
      | error f' =>
          have hf' := entry_eq_error_iff.1 he
          constructor
          · intro h
            cases h
            exact ⟨[], e, es, rfl, nofun, hf'⟩
          · rintro ⟨before, e', behind, hs, hb, hf⟩
            cases before with
            | nil =>
                cases hs
                exact he.symm.trans (entry_eq_error_iff.2 hf)
            | cons b before =>
                cases hs
                exact absurd hf' (readable_iff.1 (List.forall_mem_cons.1 hb).1 f')

theorem exists_entries {es : List (Yaml × Yaml)} (h : ∀ e ∈ es, Readable e) :
    ∃ d, blank.entries es = .ok d ∧ d.Holds es := by
  cases hd : blank.entries es with
  | ok d => exact ⟨d, rfl, (holds_blank.entries hd).1⟩
  | error f =>
      obtain ⟨before, e, behind, rfl, -, hf⟩ := entries_eq_error_iff.1 hd
      have hm : e ∈ before ++ e :: behind := List.mem_append_right before List.mem_cons_self
      exact absurd hf (readable_iff.1 (h e hm) f)

end Draft

/-! ## Whole mappings -/

/-- The values that settings have. The scope is in the encoder. -/
def value (s : Settings) (scope : String) : Key → Value
  | .network => .text s.network
  | .address => .text s.address
  | .scope => .text scope
  | .bufferSize => .size s.bufferSize
  | .queueSize => .size s.queueSize
  | .retryMin => .span s.retryMin
  | .retryMax => .span s.retryMax
  | .flushInterval => .span s.flushInterval
  | .writeTimeout => .span s.writeTimeout
  | .threadName => .text s.threadName

/-- Each setting has the value that the entries give it. -/
def Assembles (es : List (Yaml × Yaml)) (s : Settings) : Prop :=
  ∃ scope, s.codec = Statsd.codec ⟨scope⟩ ∧ ∀ k, Gives k es (s.value scope k)

/-- Every entry is readable, there is an address, and the network is known. -/
structure Complete (es : List (Yaml × Yaml)) : Prop where
  readable : ∀ e ∈ es, Readable e
  addressed : ∃ e ∈ es, Names e .address
  network : ∃ network ∈ ["tcp", "tcp4", "tcp6", "unix"], Gives .network es (.text network)

/-- The error of a mapping: that of the first entry to blame, or what is found missing behind them
all. -/
inductive Fails (es : List (Yaml × Yaml)) : Fault → Prop
  | entry {before behind : List (Yaml × Yaml)} {e : Yaml × Yaml} {f : Fault}
      (split : es = before ++ e :: behind) (readable : ∀ e' ∈ before, Readable e')
      (blames : Blames e f) : Fails es f
  | address (readable : ∀ e ∈ es, Readable e) (never : ∀ e ∈ es, ¬ Names e .address) :
      Fails es .noAddress
  | network {network : String} (readable : ∀ e ∈ es, Readable e)
      (addressed : ∃ e ∈ es, Names e .address) (gives : Gives .network es (.text network))
      (unknown : network ∉ ["tcp", "tcp4", "tcp6", "unix"]) : Fails es (.unsupportedNetwork network)

namespace Draft

theorem finish_of_none {d : Draft} (h : d.address.isSome = false) : d.finish = .error .noAddress := by
  simp only [finish, Option.isNone_iff_eq_none.1 (Option.isSome_eq_false_iff.1 h)]

theorem finish_of_unknown {d : Draft} (h : d.address.isSome)
    (hn : d.network ∉ ["tcp", "tcp4", "tcp6", "unix"]) :
    d.finish = .error (.unsupportedNetwork d.network) := by
  obtain ⟨address, ha⟩ := Option.isSome_iff_exists.1 h
  simp only [finish, ha, Network.ofText?_eq_none_iff.2 hn]

theorem finish_of_known {d : Draft} (h : d.address.isSome)
    (hn : d.network ∈ ["tcp", "tcp4", "tcp6", "unix"]) :
    ∃ s, d.finish = .ok s ∧ s.codec = Statsd.codec ⟨d.scope⟩ ∧ s.value d.scope = d.value := by
  obtain ⟨address, ha⟩ := Option.isSome_iff_exists.1 h
  have hk : Network.ofText? d.network ≠ none := fun hf => Network.ofText?_eq_none_iff.1 hf hn
  obtain ⟨network, hnet⟩ := Option.ne_none_iff_exists'.1 hk
  refine ⟨{ d.settings with network := d.network, address, codec := Statsd.codec ⟨d.scope⟩ },
    by simp only [finish, ha, hnet], rfl, ?_⟩
  funext k
  cases k with
  | address => exact congrArg Value.text (ha ▸ rfl)
  | _ => rfl

end Draft

theorem eq_of_values {s t : Settings} {scope : String} (hc : s.codec = t.codec)
    (hv : s.value scope = t.value scope) : s = t := by
  obtain ⟨_, _, _, _, _, _, _, _, _, _⟩ := s
  obtain ⟨_, _, _, _, _, _, _, _, _, _⟩ := t
  rw [Settings.mk.injEq]
  exact ⟨hc, Value.text.inj (congrFun hv .network), Value.text.inj (congrFun hv .address),
    Value.size.inj (congrFun hv .bufferSize), Value.size.inj (congrFun hv .queueSize),
    Value.span.inj (congrFun hv .retryMin), Value.span.inj (congrFun hv .retryMax),
    Value.span.inj (congrFun hv .flushInterval), Value.span.inj (congrFun hv .writeTimeout),
    Value.text.inj (congrFun hv .threadName)⟩

theorem exists_ofYaml {es : List (Yaml × Yaml)} (h : Complete es) :
    ∃ s, ofYaml (.mapping es) = .ok s := by
  obtain ⟨d, hd, hh⟩ := Draft.exists_entries h.readable
  obtain ⟨network, hn, hg⟩ := h.network
  have hnet : network = d.network := Value.text.inj (hg.unique (hh.gives .network))
  obtain ⟨s, hs, -⟩ := Draft.finish_of_known (hh.addressed.2 h.addressed) (hnet ▸ hn)
  exact ⟨s, by simp only [ofYaml, hd, hs]⟩

/-- A mapping fails for a reason of its own, or it gives settings that it assembles. -/
theorem ofYaml_mapping (es : List (Yaml × Yaml)) :
    (∃ f, ofYaml (.mapping es) = .error f ∧ Fails es f) ∨
      ∃ s, ofYaml (.mapping es) = .ok s ∧ Complete es ∧ Assembles es s := by
  cases hd : Draft.blank.entries es with
  | error f =>
      obtain ⟨before, e, behind, hs, hb, hf⟩ := Draft.entries_eq_error_iff.1 hd
      exact .inl ⟨f, by simp only [ofYaml, hd], .entry hs hb hf⟩
  | ok d =>
      have hfinish : ofYaml (.mapping es) = d.finish := by simp only [ofYaml, hd]
      obtain ⟨hh, hr⟩ := Draft.holds_blank.entries hd
      rw [List.nil_append] at hh
      by_cases ha : d.address.isSome
      · by_cases hn : d.network ∈ ["tcp", "tcp4", "tcp6", "unix"]
        · obtain ⟨s, hs, hc, hv⟩ := Draft.finish_of_known ha hn
          refine .inr ⟨s, hfinish.trans hs, ⟨hr, hh.addressed.1 ha, d.network, hn, hh.gives .network⟩,
            d.scope, hc, fun k => ?_⟩
          rw [hv]
          exact hh.gives k
        · exact .inl ⟨_, hfinish.trans (Draft.finish_of_unknown ha hn),
            .network hr (hh.addressed.1 ha) (hh.gives .network) hn⟩
      · exact .inl ⟨_, hfinish.trans (Draft.finish_of_none (Bool.eq_false_iff.2 ha)),
          .address hr fun e hm he => ha (hh.addressed.2 ⟨e, hm, he⟩)⟩

theorem ofYaml_of_fails {es : List (Yaml × Yaml)} {f : Fault} (h : Fails es f) :
    ofYaml (.mapping es) = .error f := by
  cases h with
  | entry split readable blames =>
      have hd : Draft.blank.entries es = .error f :=
        Draft.entries_eq_error_iff.2 ⟨_, _, _, split, readable, blames⟩
      simp only [ofYaml, hd]
  | address readable never =>
      obtain ⟨d, hd, hh⟩ := Draft.exists_entries readable
      have ha : d.address.isSome = false := by
        rw [Bool.eq_false_iff]
        intro ha
        obtain ⟨e, hm, he⟩ := hh.addressed.1 ha
        exact never e hm he
      simp only [ofYaml, hd, Draft.finish_of_none ha]
  | network readable addressed gives unknown =>
      obtain ⟨d, hd, hh⟩ := Draft.exists_entries readable
      cases (Value.text.inj (gives.unique (hh.gives .network)))
      simp only [ofYaml, hd, Draft.finish_of_unknown (hh.addressed.2 addressed) unknown]

theorem complete_of_ofYaml {es : List (Yaml × Yaml)} {s : Settings}
    (h : ofYaml (.mapping es) = .ok s) : Complete es ∧ Assembles es s := by
  rcases ofYaml_mapping es with ⟨f, hf, -⟩ | ⟨t, ht, hc, ha⟩
  · exact nomatch hf.symm.trans h
  · cases ht.symm.trans h
    exact ⟨hc, ha⟩

theorem ofYaml_mapping_eq_error_iff {es : List (Yaml × Yaml)} {f : Fault} :
    ofYaml (.mapping es) = .error f ↔ Fails es f := by
  refine ⟨fun h => ?_, ofYaml_of_fails⟩
  rcases ofYaml_mapping es with ⟨f', hf, hr⟩ | ⟨t, ht, -⟩
  · cases hf.symm.trans h
    exact hr
  · exact nomatch ht.symm.trans h

/-- Entries give one record of settings at most. -/
theorem Assembles.unique {es : List (Yaml × Yaml)} {s t : Settings} (hs : Assembles es s)
    (ht : Assembles es t) : s = t := by
  obtain ⟨scope, hc, hv⟩ := hs
  obtain ⟨scope', hc', hv'⟩ := ht
  cases Value.text.inj ((hv .scope).unique (hv' .scope))
  exact eq_of_values (hc.trans hc'.symm) (funext fun k => (hv k).unique (hv' k))

theorem ofYaml_mapping_eq_ok_iff {es : List (Yaml × Yaml)} {s : Settings} :
    ofYaml (.mapping es) = .ok s ↔ Complete es ∧ Assembles es s := by
  constructor
  · exact complete_of_ofYaml
  · rintro ⟨hc, ha⟩
    obtain ⟨t, ht⟩ := exists_ofYaml hc
    rw [ha.unique (complete_of_ofYaml ht).2]
    exact ht

/-! ## The order of entries -/

section Order

variable {es es' : List (Yaml × Yaml)}

theorem Gives.perm {k : Key} {x : Value} (hp : es'.Perm es)
    (h : es.Pairwise fun a b => ∀ k, Names a k → ¬ Names b k) : Gives k es' x ↔ Gives k es x := by
  have hsymm {a b : Yaml × Yaml} (hab : ∀ k, Names a k → ¬ Names b k) (k : Key) (hb : Names b k) :
      ¬ Names a k := fun ha => hab k ha hb
  rw [iff_of_distinct h, iff_of_distinct (hp.symm.pairwise h hsymm)]
  simp only [hp.mem_iff]

theorem Complete.perm (hp : es'.Perm es) (h : es.Pairwise fun a b => ∀ k, Names a k → ¬ Names b k)
    (hc : Complete es) : Complete es' := by
  obtain ⟨e, hm, he⟩ := hc.addressed
  obtain ⟨network, hn, hg⟩ := hc.network
  exact ⟨fun e hm => hc.readable e (hp.mem_iff.1 hm), ⟨e, hp.mem_iff.2 hm, he⟩, network, hn,
    (Gives.perm hp h).2 hg⟩

end Order

end Settings
end Telemetry
