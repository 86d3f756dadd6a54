/-!
Metrics: a name, a help text and an ordered list of tags.

The order of tags is kept for writing, but it is no part of what a metric is: two lists with the
same tags in another order are the same tag set, and two metrics are the same if their names and
tag sets are.
-/

namespace Telemetry

structure Tag where
  name : String
  value : String
  deriving DecidableEq, Repr

namespace Tag

/-- By name, then by value, each in the order of its bytes. -/
def order (a b : Tag) : Ordering := (compare a.name b.name).then (compare a.value b.value)

end Tag

/-- Tags in the order in which they were added. A name may occur more than once. -/
structure Tags where
  list : List Tag
  deriving Repr

namespace Tags

def empty : Tags := ⟨[]⟩

def ofList (tags : List Tag) : Tags := ⟨tags⟩

def add (t : Tags) (tag : Tag) : Tags := ⟨t.list ++ [tag]⟩

def size (t : Tags) : Nat := t.list.length

def isEmpty (t : Tags) : Bool := t.list.isEmpty

/-- The value of the first tag with a name. -/
def get? (t : Tags) (name : String) : Option String :=
  (t.list.find? fun tag => tag.name == name).map (·.value)

/-- The tags in order. Equal tags cannot be told apart, so any sorting gives this list. -/
def sorted (t : Tags) : List Tag := t.list.mergeSort fun a b => a.order b != .gt

def same (a b : Tags) : Bool := a.size == b.size && a.sorted == b.sorted

@[simp] theorem list_add (t : Tags) (tag : Tag) : (t.add tag).list = t.list ++ [tag] := rfl

end Tags

structure Metric where
  name : String
  help : String
  tags : Tags
  deriving Repr

namespace Metric

def ofName (name : String) : Metric := ⟨name, "", .empty⟩

def withHelp (m : Metric) (help : String) : Metric := { m with help }

def withTag (m : Metric) (tag : Tag) : Metric := { m with tags := m.tags.add tag }

def withTags (m : Metric) (tags : Tags) : Metric := { m with tags }

/-- The same name and the same tag set. The help text does not count. -/
def same (m n : Metric) : Bool := m.name == n.name && m.tags.same n.tags

end Metric
end Telemetry
