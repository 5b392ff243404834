import DataTree.Plan
import DataTree.Schema.Planting

/-!
# Workspaces

A workspace is a schema under edit. Labels name its nodes, and, each in a space of their own, plans
and unfinished walks. Commands refer to all of these by label; replies refer to nodes by number.
-/

namespace DataTree

structure Workspace where
  schema : Schema
  nodes : Entries String NodeId
  plans : Entries String Plan
  walks : Entries String Walk
  deriving DecidableEq, Repr

/-- A new value for one field of a node; a parent is given by its label. -/
inductive Edit where
  | name (s : Name)
  | path (s : String)
  | kind (v : Value)
  | visibility (v : Value)
  | parent (label : Option String)

inductive Command where
  /-- A lone node, not among the children of its parent. -/
  | create (label : String) (name : Name) (path : String) (kind : Value) (visibility : Option Value)
      (parent : Option String)
  /-- A described tree, whose root is not among the children of its parent. -/
  | build (label : String) (name : Name) (description : Value) (parent : Option String)
  /-- One more label, for the node that a chain of keys leads to. -/
  | locate (label origin : String) (keys : List String)
  | attach (parent key child : String)
  | detach (parent key : String)
  | edit (label : String) (change : Edit)
  | inspect (label : String)
  | dump (label : String)
  | print (label : String)
  | same (label other : String)
  | frontier (label : String)
  | resolve (label : String) (policy : Value)
  | plan (label : String) (policy : Value) (strict : Bool)
  | resolveWith (plan label : String)
  | flatten (plan label : String)
  | findDefects (plan label : String)
  | walk (label plan root : String)
  | advance (walk : String) (count : Nat)

inductive Reply where
  | done
  | truth (b : Bool)
  | text (s : String)
  | keys (names : List Name)
  | policy (p : Policy)
  | node (i : NodeId)
  | nodes (is : List NodeId)
  | children (entries : Entries Name NodeId)
  /-- A node with all that is known of it. -/
  | detail (i : NodeId)
  | details (is : List NodeId)
  | childSet (r : ChildSet)
  | childSets (sets : Entries String ChildSet)
  | defects (found : List Defect)
  /-- Visits, and whether the walk ended before all that were asked for. -/
  | visits (made : List Visit) (ended : Bool)
  deriving DecidableEq, Repr

namespace Workspace

def empty : Workspace :=
  ⟨.empty, [], [], []⟩

/-- The labels of node `i`, in order. -/
def labelsOf (w : Workspace) (i : NodeId) : List String :=
  Entries.keys (w.nodes.filter fun entry => entry.2 = i) |>.mergeSort

/-- What a label stands for. -/
def lookup {α : Type} (entries : Entries String α) (label : String) : Except Fault α :=
  match entries.get? label with
  | some a => .ok a
  | none => .error (.missingKey label)

def node (w : Workspace) (label : String) : Except Fault NodeId :=
  lookup w.nodes label

/-- The node of a label, if there is a label. -/
def node? (w : Workspace) : Option String → Except Fault (Option NodeId)
  | none => return none
  | some label => return some (← w.node label)

def bind (w : Workspace) (label : String) (i : NodeId) : Workspace :=
  { w with nodes := w.nodes.put label i }

/-- A new schema, whose node `i` gets a label. -/
def install (w : Workspace) (schema : Schema) (label : String) (i : NodeId) : Workspace :=
  { w with schema := schema }.bind label i

end Workspace

end DataTree
