import DataTree.Entries
import DataTree.Kind
import DataTree.Name
import DataTree.Policy
import DataTree.Visibility

/-!
# Schemas

A schema holds its nodes under numbers, so that a node may be the child of several others and keep
its identity. Children are named references in declaration order; the parent is a reference of its
own, through which visibility is inherited. Reads are total: a number without a node reads as a
leaf without a name.

Searches through references take a bound on their depth. The number of nodes is enough as long as
no reference leads back.
-/

namespace DataTree

abbrev NodeId := Nat

structure Node where
  name : Name
  kind : Kind
  visibility : Visibility
  path : String
  children : Entries Name NodeId
  parent : Option NodeId
  deriving DecidableEq, Repr

namespace Node

/-- What an unused number reads as. -/
def absent : Node :=
  ⟨none, .leaf, .inherited, "", [], none⟩

/-- The side that a container of that name is. -/
def side? (n : Node) : Option Side :=
  if n.kind = .container then n.name.bind Side.ofName? else none

end Node

structure Schema where
  nodes : Array Node
  deriving DecidableEq, Repr

namespace Schema

def empty : Schema :=
  ⟨#[]⟩

def size (s : Schema) : Nat :=
  s.nodes.size

def node (s : Schema) (i : NodeId) : Node :=
  s.nodes[i]?.getD .absent

/-- The children's numbers in declaration order. -/
def children (s : Schema) (i : NodeId) : List NodeId :=
  (s.node i).children.values

def modify (s : Schema) (i : NodeId) (change : Node → Node) : Schema :=
  ⟨s.nodes.modify i change⟩

/-- Adds a node; its number is the former size. -/
def push (s : Schema) (n : Node) : Schema :=
  ⟨s.nodes.push n⟩

/-- Keeps `child` under `key` at node `i`; the child itself does not change. -/
def attach (s : Schema) (i : NodeId) (key : Name) (child : NodeId) : Schema :=
  s.modify i fun n => { n with children := n.children.put key child }

def detach (s : Schema) (i : NodeId) (key : Name) : Schema :=
  s.modify i fun n => { n with children := n.children.erase key }

/-! ## Visibility -/

/-- The nearest declaration at `i` or above it, looking at `depth` nodes. -/
def writableWithin (s : Schema) : Nat → NodeId → Bool
  | 0, _ => true
  | depth + 1, i =>
    match (s.node i).visibility with
    | .writable => true
    | .readOnly => false
    | .inherited =>
      match (s.node i).parent with
      | some p => s.writableWithin depth p
      | none => true

/-- The effective visibility: writable unless the nearest declaration says otherwise. -/
def writable (s : Schema) (i : NodeId) : Bool :=
  s.writableWithin s.size i

/-! ## Descendants -/

/-- `i` and what is below it in pre-order, `depth` levels deep. -/
def subtreeWithin (s : Schema) : Nat → NodeId → List NodeId
  | 0, _ => []
  | depth + 1, i => i :: (s.children i).flatMap (s.subtreeWithin depth)

def subtree (s : Schema) (i : NodeId) : List NodeId :=
  s.subtreeWithin s.size i

/-- The first nodes at or below `i` that are no wrappers, `depth` levels deep. -/
def frontierWithin (s : Schema) : Nat → NodeId → List NodeId
  | 0, _ => []
  | depth + 1, i =>
    if (s.node i).kind.isWrapper then (s.children i).flatMap (s.frontierWithin depth) else [i]

/-- The data nodes that `i` stands for: itself, or the first ones below a wrapper. -/
def frontier (s : Schema) (i : NodeId) : List NodeId :=
  s.frontierWithin s.size i

/-- The node that a chain of keys leads to from `i`, or the first key that leads nowhere. -/
def descend (s : Schema) (i : NodeId) : List String → Except String NodeId
  | [] => .ok i
  | key :: keys =>
    match (s.node i).children.get? (some key) with
    | some child => s.descend child keys
    | none => .error key

end Schema

end DataTree
