import Telemetry.Proofs.Relay.Encoding
/-!
Which connection has taken which bytes.

The bytes of one event are a chunk. A block that a connection took is made of whole chunks, so
chunks are grouped: by blocks on one connection, and by connections in the order in which these were
made. A flush that fails leaves the first bytes of what it tried on the connection that it gives up,
and the next connection starts again where that flush did.
-/

namespace Telemetry

/-- The connection took these groups of chunks, each as a block, and a part of a further one. -/
structure Sink.Took (s : Sink) (groups : List (List Bytes)) (part : Bytes) : Prop where
  blocks : s.blocks = groups.map List.flatten
  content : s.content = groups.flatten.flatten ++ part

/-- Connections made one after the other, with the lengths of the flushes that failed on them, and
the chunks from the first one that the next connection gets. -/
inductive Handed (chunks : List Bytes) : List Sink → List Nat → List Bytes → Prop where
  | start : Handed chunks [] [] chunks
  | closed {connections : List Sink} {lengths : List Nat} {groups : List (List Bytes)}
      {later : List Bytes} {s : Sink}
      (before : Handed chunks connections lengths (groups.flatten ++ later))
      (took : s.Took groups []) : Handed chunks (connections ++ [s]) lengths later
  | failed {connections : List Sink} {lengths : List Nat} {groups : List (List Bytes)}
      {tried later : List Bytes} {s : Sink} {part : Bytes}
      (before : Handed chunks connections lengths (groups.flatten ++ (tried ++ later)))
      (took : s.Took groups part) (first : part <+: tried.flatten) :
      Handed chunks (connections ++ [s]) (lengths ++ [tried.flatten.length]) (tried ++ later)

/-- The same with the connection in use, if there is one, which has taken whole chunks only. -/
def Carried (chunks : List Bytes) (retired : List Sink) (current : Option Sink)
    (lengths : List Nat) (rest : List Bytes) : Prop :=
  match current with
  | none => Handed chunks retired lengths rest
  | some s => ∃ groups, Handed chunks retired lengths (groups.flatten ++ rest) ∧ s.Took groups []

namespace Sink

theorem Took.unflushed {s : Sink} {groups : List (List Bytes)} {part : Bytes}
    (h : s.Took groups part) : s.unflushed = part := by
  have hc := h.content
  rw [content_eq, h.blocks, ← List.flatten_flatten] at hc
  exact List.append_cancel_left hc

theorem took_of_unflushed {s : Sink} {groups : List (List Bytes)} {part : Bytes}
    (hb : s.blocks = groups.map List.flatten) (hu : s.unflushed = part) : s.Took groups part where
  blocks := hb
  content := by
    rw [content_eq, hb, hu, ← List.flatten_flatten]

theorem Took.drop {s : Sink} {groups : List (List Bytes)} {part : Bytes}
    (h : s.Took groups part) : s.drop.Took groups part :=
  took_of_unflushed h.blocks ((unflushed_drop s).trans h.unflushed)

end Sink

namespace Handed

variable {chunks rest : List Bytes} {connections : List Sink} {lengths : List Nat}

theorem append (h : Handed chunks connections lengths rest) (more : List Bytes) :
    Handed (chunks ++ more) connections lengths (rest ++ more) := by
  induction h with
  | start => exact .start
  | closed before took ih =>
      rw [List.append_assoc] at ih
      exact .closed ih took
  | failed before took first ih =>
      rw [List.append_assoc, List.append_assoc] at ih
      rw [List.append_assoc]
      exact .failed ih took first

theorem flatten_blocks {s : Sink} {groups : List (List Bytes)} {part : Bytes}
    (h : s.Took groups part) (connections : List Sink) (rest : List Bytes) :
    (connections.flatMap Sink.blocks).flatten ++ (groups.flatten ++ rest).flatten =
      ((connections ++ [s]).flatMap Sink.blocks).flatten ++ rest.flatten := by
  rw [List.flatMap_append, List.flatMap_singleton, h.blocks, List.flatten_append,
    List.flatten_append, ← List.flatten_flatten, List.append_assoc]

/-- No byte is lost: the blocks and the rest are all there was. -/
theorem flatten (h : Handed chunks connections lengths rest) :
    chunks.flatten = (connections.flatMap Sink.blocks).flatten ++ rest.flatten := by
  induction h with
  | start => rfl
  | closed before took ih => exact ih.trans (flatten_blocks took _ _)
  | failed before took first ih => exact ih.trans (flatten_blocks took _ _)

/-- What the next connection gets is the end of what there was. -/
theorem suffix (h : Handed chunks connections lengths rest) : rest <:+ chunks := by
  induction h with
  | start => exact List.suffix_rfl
  | closed before took ih => exact (List.suffix_append _ _).trans ih
  | failed before took first ih => exact (List.suffix_append _ _).trans ih

end Handed

namespace Carried

variable {chunks rest : List Bytes} {retired : List Sink} {current : Option Sink}
  {lengths : List Nat}

theorem append (h : Carried chunks retired current lengths rest) (more : List Bytes) :
    Carried (chunks ++ more) retired current lengths (rest ++ more) := by
  cases current with
  | none => exact Handed.append h more
  | some s =>
      obtain ⟨groups, hh, ht⟩ := h
      have ha := hh.append more
      rw [List.append_assoc] at ha
      exact ⟨groups, ha, ht⟩

theorem flatten (h : Carried chunks retired current lengths rest) :
    chunks.flatten =
      ((retired ++ current.toList).flatMap Sink.blocks).flatten ++ rest.flatten := by
  cases current with
  | none =>
      rw [Option.toList_none, List.append_nil]
      exact Handed.flatten h
  | some s =>
      obtain ⟨groups, hh, ht⟩ := h
      exact (Handed.closed hh ht).flatten

theorem suffix (h : Carried chunks retired current lengths rest) : rest <:+ chunks := by
  cases current with
  | none => exact Handed.suffix h
  | some s =>
      obtain ⟨groups, hh, -⟩ := h
      exact (List.suffix_append _ _).trans hh.suffix

theorem retire {s : Sink} (h : Carried chunks retired (some s) lengths rest) :
    Carried chunks (retired ++ [s.drop]) none lengths rest := by
  obtain ⟨groups, hh, ht⟩ := h
  exact Handed.closed hh ht.drop

theorem opened {s : Sink} (h : Carried chunks retired none lengths rest) (hs : s.past = []) :
    Carried chunks retired (some s) lengths rest := by
  exact ⟨[], h, Sink.took_of_unflushed (Sink.blocks_of_past_nil hs)
    (Sink.unflushed_of_past_nil hs)⟩

theorem flushed {s s' : Sink} {front back : List Bytes}
    (h : Carried chunks retired (some s) lengths (front ++ back))
    (hb : s'.blocks = s.blocks ++ [s.unflushed ++ front.flatten]) (hu : s'.unflushed = []) :
    Carried chunks retired (some s') lengths back := by
  obtain ⟨groups, hh, ht⟩ := h
  refine ⟨groups ++ [front], ?_, Sink.took_of_unflushed ?_ hu⟩
  · rw [List.flatten_append, List.flatten_singleton, List.append_assoc]
    exact hh
  · rw [hb, ht.blocks, ht.unflushed, List.map_append, List.nil_append]
    rfl

theorem failed {s s' : Sink} {front back : List Bytes} {taken : Bytes}
    (h : Carried chunks retired (some s) lengths (front ++ back)) (hb : s'.blocks = s.blocks)
    (hu : s'.unflushed = s.unflushed ++ taken) (hp : taken <+: front.flatten) :
    Carried chunks (retired ++ [s'.drop]) none (lengths ++ [front.flatten.length])
      (front ++ back) := by
  obtain ⟨groups, hh, ht⟩ := h
  rw [ht.unflushed, List.nil_append] at hu
  have ht' : s'.Took groups taken := Sink.took_of_unflushed (hb.trans ht.blocks) hu
  exact Handed.failed hh ht'.drop hp

end Carried

/-- The counts of what was sent. -/
def Counters.sent (c : Counters) : UInt64 × UInt64 × UInt64 :=
  (c.flushes, c.bytesWritten, c.established)

/-- The length of the flush whose failure is reported. -/
def Failure.writeLength? : Failure → Option Nat
  | .write length _ => some length
  | _ => none

namespace Transmitter

/-- The blocks of all flushes that succeeded, in order. -/
def flushed (t : Transmitter) : List Bytes := t.connections.flatMap Sink.blocks

/-- A transmitter that got these chunks, with the lengths of the flushes that failed and the chunks
that are still pending. -/
structure Ledger (chunks : List Bytes) (lengths : List Nat) (rest : List Bytes)
    (t : Transmitter) : Prop where
  carried : Carried chunks t.retired t.connection lengths rest
  pending : t.pending = rest.flatten
  sound : ∀ s, t.connection = some s → s.Sound
  givenUp : ∀ s ∈ t.retired, s.GivenUp
  flushes : t.counters.flushes = UInt64.ofNat t.flushed.length
  bytesWritten : t.counters.bytesWritten = UInt64.ofNat t.flushed.flatten.length
  established : t.counters.established = UInt64.ofNat t.connections.length

theorem flushed_retired {t : Transmitter} (h : t.connection = none) :
    t.flushed = t.retired.flatMap Sink.blocks := by
  unfold flushed connections
  rw [h, Option.toList_none, List.append_nil]

theorem flushed_connected {t : Transmitter} {s : Sink} (h : t.connection = some s) :
    t.flushed = t.retired.flatMap Sink.blocks ++ s.blocks := by
  unfold flushed connections
  rw [h, Option.toList_some, List.flatMap_append, List.flatMap_singleton]

theorem connections_retired {t : Transmitter} (h : t.connection = none) :
    t.connections = t.retired := by
  unfold connections
  rw [h, Option.toList_none, List.append_nil]

theorem connections_connected {t : Transmitter} {s : Sink} (h : t.connection = some s) :
    t.connections = t.retired ++ [s] := by
  unfold connections
  rw [h, Option.toList_some]

namespace Ledger

variable {chunks rest : List Bytes} {lengths : List Nat} {t t' : Transmitter}

/-- The counts stay right as long as the blocks and the number of connections stay the same. -/
theorem counted (h : Ledger chunks lengths rest t) {lengths' : List Nat} {rest' : List Bytes}
    (hk : Carried chunks t'.retired t'.connection lengths' rest')
    (hp : t'.pending = rest'.flatten) (hs : ∀ s, t'.connection = some s → s.Sound)
    (hg : ∀ s ∈ t'.retired, s.GivenUp) (hf : t'.flushed = t.flushed)
    (hn : t'.connections.length = t.connections.length)
    (hc : t'.counters.sent = t.counters.sent) : Ledger chunks lengths' rest' t' where
  carried := hk
  pending := hp
  sound := hs
  givenUp := hg
  flushes := by
    rw [hf, ← h.flushes]
    exact congrArg (·.1) hc
  bytesWritten := by
    rw [hf, ← h.bytesWritten]
    exact congrArg (·.2.1) hc
  established := by
    rw [hn, ← h.established]
    exact congrArg (·.2.2) hc

theorem congr (h : Ledger chunks lengths rest t) (hp : t'.pending = t.pending)
    (hc : t'.connection = t.connection) (hr : t'.retired = t.retired)
    (hs : t'.counters.sent = t.counters.sent) : Ledger chunks lengths rest t' := by
  have hn : t'.connections = t.connections := by
    unfold connections
    rw [hc, hr]
  have hf : t'.flushed = t.flushed := by
    unfold flushed
    rw [hn]
  exact h.counted (by rw [hc, hr]; exact h.carried) (hp.trans h.pending)
    (by rw [hc]; exact h.sound) (by rw [hr]; exact h.givenUp) hf (congrArg List.length hn) hs

theorem flatten (h : Ledger chunks lengths rest t) :
    chunks.flatten = t.flushed.flatten ++ t.pending := by
  rw [h.pending]
  exact h.carried.flatten

theorem gather (h : Ledger chunks lengths rest t) (chunk : Bytes) :
    Ledger (chunks ++ [chunk]) lengths (rest ++ [chunk])
      { t with pending := t.pending ++ chunk } where
  carried := h.carried.append [chunk]
  pending := by
    rw [List.flatten_append, List.flatten_singleton, ← h.pending]
  sound := h.sound
  givenUp := h.givenUp
  flushes := h.flushes
  bytesWritten := h.bytesWritten
  established := h.established

theorem disconnect (h : Ledger chunks lengths rest t) :
    Ledger chunks lengths rest t.disconnect := by
  cases hc : t.connection with
  | none =>
      refine h.congr rfl hc.symm ?_ rfl
      show t.retired ++ (t.connection.map Sink.drop).toList = t.retired
      rw [hc, Option.map_none, Option.toList_none, List.append_nil]
  | some s =>
      have hr : t.disconnect.retired = t.retired ++ [s.drop] := by
        show t.retired ++ (t.connection.map Sink.drop).toList = t.retired ++ [s.drop]
        rw [hc, Option.map_some, Option.toList_some]
      have hk := h.carried
      rw [hc] at hk
      refine h.counted ?_ h.pending (fun q hq => ?_) (fun q hq => ?_) ?_ ?_ rfl
      · rw [hr]
        exact hk.retire
      · exact absurd hq (Option.some_ne_none q).symm
      · rw [hr] at hq
        rcases List.mem_append.1 hq with hq | hq
        · exact h.givenUp q hq
        · rw [List.mem_singleton.1 hq]
          exact (h.sound s hc).strained.givenUp_drop
      · rw [flushed_retired rfl, flushed_connected hc, hr, List.flatMap_append,
          List.flatMap_singleton, Sink.blocks_drop]
      · rw [connections_retired rfl, connections_connected hc, hr, List.length_append,
          List.length_append, List.length_singleton, List.length_singleton]

/-- Another connection, not called so far, is used when there is none. -/
theorem opened {s : Sink} (h : Ledger chunks lengths rest t) (hc : t.connection = none)
    (hs : s.past = []) (hp : t'.pending = t.pending) (hc' : t'.connection = some s)
    (hr : t'.retired = t.retired) (hf : t'.counters.flushes = t.counters.flushes)
    (hb : t'.counters.bytesWritten = t.counters.bytesWritten)
    (he : t'.counters.established = t.counters.established + 1) :
    Ledger chunks lengths rest t' := by
  have hk : t'.flushed = t.flushed := by
    rw [flushed_connected hc', flushed_retired hc, hr, Sink.blocks_of_past_nil hs,
      List.append_nil]
  constructor
  · have hk := h.carried
    rw [hc] at hk
    rw [hc', hr]
    exact hk.opened hs
  · exact hp.trans h.pending
  · intro q hq
    cases hc'.symm.trans hq
    exact Sink.sound_of_past_nil hs
  · rw [hr]
    exact h.givenUp
  · rw [hk, hf]
    exact h.flushes
  · rw [hk, hb]
    exact h.bytesWritten
  · rw [connections_connected hc', hr, List.length_append, List.length_singleton,
      UInt64.ofNat_add, ← connections_retired hc, ← h.established]
    exact he

/-- A flush of the first chunks that are pending. -/
theorem flush {front back : List Bytes} {result : Verdict × Transmitter}
    (h : Ledger chunks lengths (front ++ back) t)
    (o : t.FlushOutcome front.flatten.length result) :
    ∃ rest, Ledger chunks (lengths ++ result.1.failures.filterMap Failure.writeLength?) rest
      result.2 := by
  have hp : t.pending = front.flatten ++ back.flatten :=
    h.pending.trans List.flatten_append
  have htake : t.pending.take front.flatten.length = front.flatten := by
    rw [hp, List.take_left]
  cases o with
  -- Nothing was sent.
  | idle => exact ⟨front ++ back, (List.append_nil lengths).symm ▸ h⟩
  | late clock hc ht hl =>
    exact ⟨front ++ back, (List.append_nil lengths).symm ▸ h.congr rfl rfl rfl rfl⟩
  -- The front is a block of the connection now, and the back is pending.
  | @flushed s s' clock hc ht hb hu hs =>
    have hk := h.carried
    rw [hc] at hk
    rw [htake] at hb
    have hu' : s.unflushed = [] := by
      obtain ⟨groups, -, took⟩ := hk
      exact took.unflushed
    let after : Transmitter := { t with
      pending := t.pending.drop front.flatten.length
      connection := some s'
      clock
      counters := t.counters.addFlush front.flatten.length }
    have hf : after.flushed = t.flushed ++ [front.flatten] := by
      rw [flushed_connected (s := s') rfl, flushed_connected hc, hb, hu', List.nil_append,
        List.append_assoc]
    have hn : after.connections.length = t.connections.length := by
      rw [connections_connected (s := s') rfl, connections_connected hc, List.length_append,
        List.length_append, List.length_singleton, List.length_singleton]
    have hl : Ledger chunks lengths back after := by
      refine ⟨hk.flushed hb hu, ?_, fun q hq => ?_, h.givenUp, ?_, ?_, ?_⟩
      · show t.pending.drop front.flatten.length = back.flatten
        rw [hp, List.drop_left]
      · cases hq
        exact hs (h.sound s hc)
      · show t.counters.flushes + 1 = UInt64.ofNat after.flushed.length
        rw [hf, List.length_append, List.length_singleton, UInt64.ofNat_add, ← h.flushes]
        rfl
      · show t.counters.bytesWritten + UInt64.ofNat front.flatten.length =
          UInt64.ofNat after.flushed.flatten.length
        rw [hf, List.flatten_append, List.flatten_singleton, List.length_append,
          UInt64.ofNat_add, ← h.bytesWritten]
      · show t.counters.established = UInt64.ofNat after.connections.length
        rw [hn]
        exact h.established
    exact ⟨back, (List.append_nil lengths).symm ▸ hl⟩
  -- The front stays pending, though a part of it was taken.
  | @failed s s' clock e hc ht hb taken part hu hs =>
    have hk := h.carried
    rw [hc] at hk
    rw [htake] at part
    let after : Transmitter := { t with
      connection := none
      retired := t.retired ++ [s'.drop]
      clock
      counters := t.counters.addWriteFailed }
    have hl : Ledger chunks (lengths ++ [front.flatten.length]) (front ++ back) after := by
      refine h.counted (hk.failed hb hu part) h.pending (fun q hq => ?_) (fun q hq => ?_) ?_ ?_ rfl
      · exact absurd hq (Option.some_ne_none q).symm
      · rcases List.mem_append.1 hq with hq | hq
        · exact h.givenUp q hq
        · rw [List.mem_singleton.1 hq]
          exact (hs (h.sound s hc)).givenUp_drop
      · rw [flushed_retired (t := after) rfl, flushed_connected hc, List.flatMap_append,
          List.flatMap_singleton, Sink.blocks_drop, hb]
      · rw [connections_retired (t := after) rfl, connections_connected hc, List.length_append,
          List.length_append, List.length_singleton, List.length_singleton]
    exact ⟨front ++ back, hl⟩

theorem flushFront {front back : List Bytes} (h : Ledger chunks lengths (front ++ back) t) {n : Nat}
    (hn : n = front.flatten.length) :
    ∃ rest', Ledger chunks (lengths ++ (t.flush n).1.failures.filterMap Failure.writeLength?)
      rest' (t.flush n).2 := by
  rw [hn]
  exact h.flush (t.flush_outcome _)

theorem flushAll (h : Ledger chunks lengths rest t) :
    ∃ rest', Ledger chunks
      (lengths ++ t.flushAll.1.failures.filterMap Failure.writeLength?) rest' t.flushAll.2 := by
  have hb : Ledger chunks lengths (rest ++ []) t := (List.append_nil rest).symm ▸ h
  exact hb.flushFront (congrArg List.length h.pending)

/-- The chunk that an event makes is gathered. A flush ends with it or before it. -/
theorem write (h : Ledger chunks lengths rest t) (name : String) (encoded : Encoded) :
    ∃ rest', Ledger (chunks ++ [encoded.bytes])
      (lengths ++ (t.write name encoded).1.failures.filterMap Failure.writeLength?) rest'
      (t.write name encoded).2 := by
  have hg := h.gather encoded.bytes
  cases encoded with
  | crashed =>
      refine ⟨rest ++ [[]], ?_⟩
      show Ledger (chunks ++ [[]]) (lengths ++ []) (rest ++ [[]]) t
      rw [List.append_nil]
      exact hg.congr (List.append_nil t.pending).symm rfl rfl rfl
  | failed bytes cause =>
      refine ⟨rest ++ [bytes], ?_⟩
      show Ledger (chunks ++ [bytes]) (lengths ++ []) (rest ++ [bytes]) { t with
        pending := t.pending ++ bytes
        counters := t.counters.addEncodeFailed }
      rw [List.append_nil]
      exact hg.congr rfl rfl rfl rfl
  | done bytes =>
      have hp : (t.pending ++ bytes).length = (rest ++ [bytes]).flatten.length :=
        congrArg List.length hg.pending
      unfold Transmitter.write due
      dsimp only [Encoded.bytes] at hg ⊢
      split
      · refine ⟨rest ++ [bytes], ?_⟩
        show Ledger (chunks ++ [bytes]) (lengths ++ []) (rest ++ [bytes])
          { t with pending := t.pending ++ bytes }
        rw [List.append_nil]
        exact hg
      -- The event's own chunk is flushed only if nothing was pending before it.
      · split
        · rw [← List.append_nil (rest ++ [bytes])] at hg
          exact hg.flushFront hp
        · exact hg.flushFront (congrArg List.length h.pending)

end Ledger
end Transmitter
end Telemetry
