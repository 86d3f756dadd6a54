import Telemetry.Metric
/-!
Metrics in memory.

A metric is held through handles, each of which leads to the place where the metric lies. Cloning a
handle does not copy the metric: both handles lead to the one place from then on. A metric is edited
where it lies as long as only one handle leads there; otherwise the handle first gets a copy of its
own, and the other handles keep what they have.
-/

namespace Telemetry

namespace Metric

/-- What the builder of a metric can set. -/
inductive Edit where
  | help (text : String)
  | tag (tag : Tag)
  | tags (tags : Tags)

def edit (m : Metric) : Edit → Metric
  | .help text => m.withHelp text
  | .tag tag => m.withTag tag
  | .tags tags => m.withTags tags

end Metric

/-- The metrics that lie in memory, and for each handle in use the place that it leads to. -/
structure Shelf where
  places : List Metric
  handles : List (String × Nat)
  led : ∀ h ∈ handles, h.2 < places.length

namespace Shelf

def empty : Shelf := ⟨[], [], by simp⟩

def place? (s : Shelf) (handle : String) : Option Nat := s.handles.lookup handle

def metric? (s : Shelf) (handle : String) : Option Metric :=
  (s.place? handle).bind fun place => s.places[place]?

theorem place_lt {s : Shelf} {handle : String} {place : Nat} (h : s.place? handle = some place) :
    place < s.places.length := by
  obtain ⟨before, after, hs, -⟩ := List.lookup_eq_some_iff.1 h
  exact s.led (handle, place) (by simp [hs])

def release (s : Shelf) (handle : String) : Shelf where
  places := s.places
  handles := s.handles.filter fun h => h.1 != handle
  led h hm := s.led h (List.mem_filter.1 hm).1

/-- Let a handle lead to a place. -/
def lead (s : Shelf) (handle : String) (place : Nat) (h : place < s.places.length) : Shelf where
  places := s.places
  handles := (handle, place) :: (s.release handle).handles
  led := by
    rintro _ (_ | ⟨_, hm⟩)
    · exact h
    · exact (s.release handle).led _ hm

/-- A shelf with one more metric, to which no handle leads yet. -/
def lay (s : Shelf) (m : Metric) : Shelf where
  places := s.places ++ [m]
  handles := s.handles
  led h hm := by simpa using Nat.lt_succ_of_lt (s.led h hm)

/-- Lay a metric in a new place, for a handle that need not have been in use. -/
def put (s : Shelf) (handle : String) (m : Metric) : Shelf :=
  (s.lay m).lead handle s.places.length (by simp [lay])

def share? (s : Shelf) (handle source : String) : Option Shelf :=
  match h : s.place? source with
  | none => none
  | some place => some (s.lead handle place (place_lt h))

/-- Put a metric in the place of another one. -/
def overwrite (s : Shelf) (place : Nat) (m : Metric) : Shelf where
  places := s.places.set place m
  handles := s.handles
  led := by simpa using s.led

/-- Another handle leads to the same place. -/
def isShared (s : Shelf) (handle : String) (place : Nat) : Bool :=
  s.handles.any fun h => h.1 != handle && h.2 == place

/-- Edit the metric of a handle, in its place if no other handle leads there. -/
def edit? (s : Shelf) (handle : String) (e : Metric.Edit) : Option Shelf := do
  let place ← s.place? handle
  let m ← s.places[place]?
  if s.isShared handle place then
    return s.put handle (m.edit e)
  else
    return s.overwrite place (m.edit e)

/-- Whether two handles have the same metric. Handles that lead to one place do, and what lies there
is not looked at. -/
def same? (s : Shelf) (a b : String) : Option Bool := do
  let p ← s.place? a
  let q ← s.place? b
  let m ← s.places[p]?
  let n ← s.places[q]?
  return p == q || m.same n

inductive Move where
  | create (handle name : String)
  | share (handle source : String)
  | edit (handle : String) (e : Metric.Edit)
  | release (handle : String)

/-- The moves that are possible are those on handles in use. -/
def step (s : Shelf) : Move → Option Shelf
  | .create handle name => some (s.put handle (.ofName name))
  | .share handle source => s.share? handle source
  | .edit handle e => s.edit? handle e
  | .release handle => (s.place? handle).map fun _ => s.release handle

end Shelf
end Telemetry
