import DataTree.ChildSet
import DataTree.Guard

/-!
# Offers

The children of a node are found in two steps. First its surroundings make offers, in a fixed
order; then the offers are taken one by one, and the first under each name stays. Members of the
preferred side reserve their names, and a member of the other side gives way in silence.
-/

namespace DataTree

inductive Offer where
  | plain (node : NodeId)
  /-- A member of the preferred side. -/
  | preferred (node : NodeId)
  /-- A member of the other side. -/
  | deferred (node : NodeId)
  /-- A side that lies directly inside a side. -/
  | nested (node : NodeId)
  deriving DecidableEq, Repr

namespace Offer

/-- What a note about a nested side puts on record. -/
def note? (s : Schema) : Offer → Option Defect
  | nested i => some ⟨.nestedPair, (s.node i).path, (s.node i).name⟩
  | _ => none

/-- The name that a member of the preferred side reserves. -/
def reserved? (s : Schema) : Offer → Option Name
  | preferred i => some (s.node i).name
  | _ => none

end Offer

/-- The children taken so far, and the names reserved by the preferred side. -/
structure Collector where
  children : Entries Name NodeId
  defects : List Defect
  reserved : List Name
  deriving DecidableEq, Repr

namespace Collector

def empty : Collector :=
  ⟨[], [], []⟩

/-- The insertion of a node under its own name. -/
def request (s : Schema) (c : Collector) (i : NodeId) (guard : Guard) : Insertion NodeId :=
  ⟨(s.node i).name, (s.node i).path, i, guard, c.reserved⟩

/-- The insertions that an offer asks for after those before it, where members of the other side
come under `guard`. -/
def requests (s : Schema) (guard : Guard) (c : Collector) : Offer → List (Insertion NodeId)
  | .plain i | .preferred i => [c.request s i .strict]
  | .deferred i => if (s.node i).name ∈ c.reserved then [] else [c.request s i guard]
  | .nested _ => []

/-- Takes an offer by the insertions that it asks for. A name is reserved even if its node could
not be inserted. -/
def takeWith (s : Schema) (guard : Guard) (c : Collector) (o : Offer) : Collector :=
  let made := c.children.insertAll (c.requests s guard o)
  ⟨made.1, c.defects ++ (o.note? s).toList ++ made.2.filterMap id,
    (o.reserved? s).toList ++ c.reserved⟩

/-- Takes one offer after those before it. -/
def take (s : Schema) (c : Collector) (o : Offer) : Collector :=
  c.takeWith s .tolerant o

def childSet (c : Collector) : ChildSet :=
  ⟨c.children, c.defects⟩

end Collector

/-- What is left of a list of offers. -/
def ChildSet.ofOffers (s : Schema) (offers : List Offer) : ChildSet :=
  (offers.foldl (Collector.take s) .empty).childSet

end DataTree
