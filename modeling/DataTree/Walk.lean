import DataTree.Resolution

/-!
# Walks

A walk visits a root and every container or list that a visited node has as a resolved child, each
right after its parent and its elder siblings, siblings by name. It is a cursor: a node is resolved
when its turn comes, and only the next step looks at the kinds of the children found then, so
changes to the schema between two steps show. Each step reports the one resolution that it makes.
-/

namespace DataTree

/-- A visited node with its children. -/
structure Visit where
  node : NodeId
  resolved : ChildSet
  deriving DecidableEq, Repr

namespace Visit

def path (s : Schema) (v : Visit) : String :=
  (s.node v.node).path

/-- The events of resolving a node and warning about its defects. -/
def resolveEvents (s : Schema) (p : Policy) (v : Visit) : List Event :=
  s.resolveEvents p v.node ++ v.resolved.defects.map (.defect (v.path s))

def events (s : Schema) (p : Policy) (v : Visit) : List Event :=
  v.resolveEvents s p ++ [.visited (v.path s) v.resolved.size]

end Visit

structure Walk where
  policy : Policy
  /-- The nodes still to be visited, the next one first. -/
  stack : List NodeId
  /-- The children of the node visited last, in order, before their kinds are looked at. -/
  waiting : List NodeId
  deriving DecidableEq, Repr

/-- What comes of going on with a walk: what it shows, what it reports, and the walk after it. -/
structure Progress (α : Type) where
  shown : α
  events : List Event
  later : Walk
  deriving DecidableEq, Repr

namespace Schema

/-- The children of `i` that are to be visited after it, in order. -/
def entityChildren (s : Schema) (p : Policy) (i : NodeId) : List NodeId :=
  (s.resolve p i).orderedChildren.filter fun child => (s.node child).kind.isEntity

/-- `i` and the entities below it in pre-order, `depth` levels deep. -/
def entitiesWithin (s : Schema) (p : Policy) : Nat → NodeId → List NodeId
  | 0, _ => []
  | depth + 1, i => i :: (s.entityChildren p i).flatMap (s.entitiesWithin p depth)

def entities (s : Schema) (p : Policy) (i : NodeId) : List NodeId :=
  s.entitiesWithin p s.size i

end Schema

namespace Walk

def start (p : Policy) (root : NodeId) : Walk :=
  ⟨p, [root], []⟩

/-- What is to be visited, seen from now. -/
def pending (s : Schema) (w : Walk) : List NodeId :=
  w.waiting.filter (fun i => (s.node i).kind.isEntity) ++ w.stack

/-- Visits one node and reports it. A walk that has nothing to visit is over for good. -/
def next (s : Schema) (w : Walk) : Progress (Option Visit) :=
  match w.pending s with
  | [] => ⟨none, [], ⟨w.policy, [], []⟩⟩
  | i :: rest =>
    let v : Visit := ⟨i, s.resolve w.policy i⟩
    ⟨some v, v.events s w.policy, ⟨w.policy, rest, v.resolved.orderedChildren⟩⟩

/-- Visits up to `count` nodes. -/
def take (s : Schema) : Nat → Walk → Progress (List Visit)
  | 0, w => ⟨[], [], w⟩
  | count + 1, w =>
    match w.next s with
    | ⟨none, events, ended⟩ => ⟨[], events, ended⟩
    | ⟨some visit, events, w⟩ =>
      let rest := w.take s count
      ⟨visit :: rest.shown, events ++ rest.events, rest.later⟩

/-- The number of nodes left to visit. -/
def length (s : Schema) (w : Walk) : Nat :=
  ((w.pending s).flatMap (s.entities w.policy)).length

/-- Goes on to the end. -/
def finish (s : Schema) (w : Walk) : Progress (List Visit) :=
  w.take s (w.length s)

/-- All visits from here to the end. -/
def visits (s : Schema) (w : Walk) : List Visit :=
  (w.finish s).shown

end Walk

end DataTree
