import DataTree.Schema.Basic
import DataTree.Tree.Description

/-!
# Planting trees

A tree becomes part of a schema: its nodes are numbered in pre-order from the schema's size on,
each child refers to its parent, and paths grow by one name a level.
-/

namespace DataTree

namespace Forest

/-- The references to siblings that are planted from number `start` on. -/
def slots (start : NodeId) : Forest → Entries Name NodeId
  | nil => []
  | cons name _ _ children rest => (name, start) :: rest.slots (start + children.size + 1)

/-- The nodes of siblings below `parent`, numbered from `start` on. -/
def nodes (parent : NodeId) (path : String) (start : NodeId) : Forest → List Node
  | nil => []
  | cons name kind visibility children rest =>
    ⟨name, kind, visibility, Path.child path name.text, children.slots (start + 1), some parent⟩ ::
      (children.nodes start (Path.child path name.text) (start + 1) ++
        rest.nodes parent path (start + children.size + 1))

end Forest

theorem Forest.length_nodes (f : Forest) (parent : NodeId) (path : String) (start : NodeId) :
    (f.nodes parent path start).length = f.size := by
  induction f generalizing parent path start with
  | nil => rfl
  | cons name kind visibility children rest ihc ihr =>
    simp [Forest.nodes, Forest.size, ihc, ihr]

theorem Forest.keys_slots (f : Forest) (start : NodeId) : (f.slots start).keys = f.names := by
  induction f generalizing start with
  | nil => rfl
  | cons name kind visibility children rest _ ihr =>
    simpa [Forest.slots, Forest.names, Entries.keys] using ihr _

namespace Tree

/-- The nodes of a tree, numbered from `start` on. -/
def nodes (t : Tree) (name : Name) (path : String) (parent : Option NodeId) (start : NodeId) :
    List Node :=
  ⟨name, t.kind, t.visibility, path, t.children.slots (start + 1), parent⟩ ::
    t.children.nodes start path (start + 1)

theorem length_nodes (t : Tree) (name : Name) (path : String) (parent : Option NodeId)
    (start : NodeId) : (t.nodes name path parent start).length = t.size := by
  simp [nodes, size, Forest.length_nodes]

end Tree

namespace Schema

/-- Adds the nodes of a tree; its root gets the former size as its number. -/
def plant (s : Schema) (t : Tree) (name : Name) (path : String) (parent : Option NodeId) : Schema :=
  ⟨s.nodes ++ (t.nodes name path parent s.size).toArray⟩

theorem size_plant (s : Schema) (t : Tree) (name : Name) (path : String) (parent : Option NodeId) :
    (s.plant t name path parent).size = s.size + t.size := by
  simp [plant, size, Tree.length_nodes]

/-- The path of a new node of that name, with or without a parent. -/
def newPath (s : Schema) (name : Name) : Option NodeId → String
  | some p => Path.child (s.node p).path name.text
  | none => Path.root name

/-- Plants the tree that a description describes; its root gets the former size as its number. -/
def build (s : Schema) (description : Value) (name : Name) (parent : Option NodeId) :
    Except Fault Schema := do
  let path := s.newPath name parent
  return s.plant (← Tree.ofValue name path description) name path parent

/-- A schema from one description, and the node that a chain of keys leads to from its root. -/
def ofDescription (description : Value) (name : Name) (keys : List String) :
    Except Fault (Schema × NodeId) := do
  let s ← empty.build description name none
  return (s, ← (s.descend 0 keys).mapError .missingKey)

end Schema

end DataTree
