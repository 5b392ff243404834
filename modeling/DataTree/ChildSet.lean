import DataTree.Fault
import DataTree.Name.Disorder
import DataTree.Schema.Text

/-!
# Child sets

The result of resolving one node: its data-tree children by name, in the order in which they were
found, and the defects met on the way.
-/

namespace DataTree

open Text (quoted commaList)

structure ChildSet where
  children : Entries Name NodeId
  defects : List Defect
  deriving DecidableEq, Repr

namespace ChildSet

def empty : ChildSet :=
  ⟨[], []⟩

def isSound (r : ChildSet) : Bool :=
  r.defects.isEmpty

/-- Refuses a child set with defects. -/
def check (r : ChildSet) : Except Fault Unit :=
  if r.isSound then .ok () else .error (.defective r.defects)

def size (r : ChildSet) : Nat :=
  r.children.length

/-- The child of that name. -/
def get (r : ChildSet) (name : String) : Except Fault NodeId :=
  match r.children.get? (some name) with
  | some i => .ok i
  | none => .error (.missingKey name)

/-- The names in their order. -/
def orderedNames (r : ChildSet) : List Name :=
  (r.children.orderedBy Name.le).keys

/-- The fault of putting the names in order, if one of several is missing. -/
def disorder? (r : ChildSet) : Option Fault :=
  (Name.disorder? r.children.keys).map .unordered

/-- The children in the order of their names. -/
def orderedChildren (r : ChildSet) : List NodeId :=
  (r.children.orderedBy Name.le).values

/-- Items between parentheses; a comma marks a single one. -/
def tupleText : List String → String
  | [item] => "(" ++ item ++ ",)"
  | items => "(" ++ commaList items ++ ")"

def text (s : Schema) (r : ChildSet) : String :=
  "ResolvedChildSet(children=\x7b" ++
    commaList (r.children.map fun entry => entry.1.quoted ++ ": " ++ s.text entry.2) ++
    "\x7d, errors=" ++ tupleText (r.defects.map Defect.text) ++ ")"

end ChildSet

end DataTree
