import DataTree.Event
import DataTree.Offer

/-!
# Resolution

Which data-tree children a node has under a policy.

* Without compression every child offers the data nodes it stands for: itself, or the first ones
  below a wrapper.
* With compression a side (a container named `config` or `state`) offers what its members stand
  for; a directory whose only child is a list offers that list; a list leaves out the references
  to its own keys. The preferred side comes first, so that its members win.
* Where state is excluded, read-only nodes offer nothing and have no children.

One node is resolved at a time; `DataTree.Walk` goes on from there.
-/

namespace DataTree.Schema

/-- The policy does not leave `i` out. -/
def admits (s : Schema) (p : Policy) (i : NodeId) : Bool :=
  !p.excludesState || s.writable i

/-! ## Offers of the children -/

def plainOffers (s : Schema) (i : NodeId) : List Offer :=
  (s.frontier i).map .plain

/-- A side's members, each after a note if it is a side itself. -/
def liftedOffers (s : Schema) (preferred : Bool) (side : NodeId) : List Offer :=
  (s.children side).flatMap fun i =>
    (if (s.node i).side?.isSome then [.nested i] else []) ++
      (s.frontier i).map (if preferred then .preferred else .deferred)

/-- The list that is the only child of directory `i`. -/
def soleList? (s : Schema) (i : NodeId) : Option NodeId :=
  if (s.node i).kind.isDirectory then
    match s.children i with
    | [inner] => if (s.node inner).kind = .list then some inner else none
    | _ => none
  else none

/-- Child `i` of `parent` only repeats a key of a list. -/
def isKeyReference (s : Schema) (parent i : NodeId) : Bool :=
  (s.node parent).kind = .list ∧ (s.node i).kind = .leafref

/-- What child `i` of `parent` offers when `side` is preferred. -/
def compressedOffers (s : Schema) (p : Policy) (side : Side) (parent i : NodeId) : List Offer :=
  if s.admits p i then
    match (s.node i).side? with
    | some own => s.liftedOffers (own = side) i
    | none =>
      match s.soleList? i with
      | some inner => if s.admits p inner then [.plain inner] else []
      | none => if s.isKeyReference parent i then [] else s.plainOffers i
  else []

/-- The children in the order in which they offer: the one kept under the preferred side's name,
if the node is a container or list, and then those of other names. -/
def scheduled (s : Schema) (side : Side) (i : NodeId) : List NodeId :=
  let n := s.node i
  (if n.kind.isEntity then (n.children.get? (some side.name)).toList else []) ++
    (s.children i).filter fun child => (s.node child).name ≠ some side.name

/-- All offers to node `i`, in order. -/
def offers (s : Schema) (p : Policy) (i : NodeId) : List Offer :=
  match p.preferred? with
  | none => ((s.children i).filter (s.admits p)).flatMap s.plainOffers
  | some side => (s.scheduled side i).flatMap (s.compressedOffers p side i)

/-! ## Resolving a node -/

/-- The data-tree children of node `i`. -/
def resolve (s : Schema) (p : Policy) (i : NodeId) : ChildSet :=
  if s.admits p i then .ofOffers s (s.offers p i) else .empty

/-- The children left out as references to keys. -/
def keyReferences (s : Schema) (p : Policy) (i : NodeId) : List NodeId :=
  match p.preferred? with
  | none => []
  | some side =>
    (s.scheduled side i).filter fun child => s.admits p child && s.isKeyReference i child

def resolveEvents (s : Schema) (p : Policy) (i : NodeId) : List Event :=
  let path := (s.node i).path
  if s.admits p i then
    let r := s.resolve p i
    (s.keyReferences p i).map (fun child => .keyReference (s.node child).path) ++
      [.resolved path p r.size r.defects.length]
  else [.readOnly path p]

/-- Resolves node `i` under the policy that a value names. -/
def resolveUnder (s : Schema) (policy : Value) (i : NodeId) : Traced ChildSet := do
  let p ← policy.member Policy
  Traced.emit (s.resolveEvents p i)
  return s.resolve p i

end DataTree.Schema
