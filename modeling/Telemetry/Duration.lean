import Telemetry.Binary64
/-!
Spans of time with nanosecond resolution, and moments on a clock.

A duration has whole seconds below 2^64 and a rest in nanoseconds; it is kept as its total, so that
sums and comparisons are those of whole numbers. A moment is a number of nanoseconds since the
clock's origin; a clock counts its seconds in 63 bits, so a moment too far ahead has no reading.
-/

namespace Telemetry

def nanosPerSecond : Nat := 10 ^ 9

def nanosPerMillisecond : Nat := 10 ^ 6

/-- A span of time as its total in nanoseconds. -/
structure Duration where
  nanos : Nat
  nanos_lt : nanos < 2 ^ 64 * 10 ^ 9 := by omega
  deriving DecidableEq, Repr

namespace Duration

theorem ext_nanos {a b : Duration} (h : a.nanos = b.nanos) : a = b := by
  cases a; cases b; cases h; rfl

def zero : Duration := ⟨0, by decide⟩

def longest : Duration := ⟨2 ^ 64 * 10 ^ 9 - 1, by decide⟩

/-- The span of `n` nanoseconds, or the longest one if there is none that long. -/
def clamp (n : Nat) : Duration :=
  if h : n < 2 ^ 64 * 10 ^ 9 then ⟨n, h⟩ else longest

def ofMillis (n : Nat) : Duration := clamp (n * nanosPerMillisecond)

def ofSeconds (n : Nat) : Duration := clamp (n * nanosPerSecond)

/-- Whole seconds, and the nanoseconds behind them. -/
def seconds (d : Duration) : Nat := d.nanos / nanosPerSecond

def subsecond (d : Duration) : Nat := d.nanos % nanosPerSecond

def isZero (d : Duration) : Bool := d.nanos = 0

/-- The sum, or the longest span if the sum is longer. -/
def saturatingAdd (a b : Duration) : Duration := clamp (a.nanos + b.nanos)

/-- The shorter of two spans. -/
def shorter (a b : Duration) : Duration := if a.nanos ≤ b.nanos then a else b

/-- The span in seconds. Whole seconds and the rest are rounded apart, as is each step after
that. -/
def toSeconds (d : Duration) : Binary64 :=
  (Binary64.ofNat d.seconds).plus
    ((Binary64.ofNat d.subsecond).dividedBy (Binary64.ofNat nanosPerSecond))

/-- The span in milliseconds: its rounded total in nanoseconds over a million, rounded. -/
def toMillis (d : Duration) : Binary64 :=
  (Binary64.ofNat d.nanos).dividedBy (Binary64.ofNat nanosPerMillisecond)

theorem nanos_clamp (n : Nat) : (clamp n).nanos = min n (2 ^ 64 * 10 ^ 9 - 1) := by
  unfold clamp
  split
  · show n = _
    omega
  · show 2 ^ 64 * 10 ^ 9 - 1 = _
    omega

theorem nanos_saturatingAdd (a b : Duration) :
    (saturatingAdd a b).nanos = min (a.nanos + b.nanos) (2 ^ 64 * 10 ^ 9 - 1) :=
  nanos_clamp _

theorem nanos_shorter (a b : Duration) : (shorter a b).nanos = min a.nanos b.nanos := by
  unfold shorter
  split <;> omega

end Duration

/-- A moment in nanoseconds since the origin of its clock. -/
abbrev Moment := Nat

namespace Moment

/-- The first moment that a clock cannot show. -/
def horizon : Nat := 2 ^ 63 * 10 ^ 9

/-- The moment `d` after `m`, if a clock can show it. -/
def after? (m : Moment) (d : Duration) : Option Moment :=
  if m + d.nanos < horizon then some (m + d.nanos) else none

end Moment
end Telemetry
