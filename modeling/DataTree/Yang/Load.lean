import DataTree.Event
import DataTree.Schema.Planting
import DataTree.Yang.Node

/-!
# Loading YANG schema nodes

A YANG schema node becomes a tree. Nodes outside the data tree are left out with all that is below
them. Two siblings of one name are refused when the second has been read to its end.
-/

namespace DataTree.Yang

/-- The forest that siblings below `path` become; `seen` holds the elder ones by name. -/
def Siblings.load (path : String) (seen : Entries Name Header) : Siblings → Traced Forest
  | nil => return .nil
  | cons h children rest =>
    match h.kind? with
    | none => do
      Traced.emit [.skipped h.nodeClass.title h.name]
      rest.load path seen
    | some kind => do
      let name := h.localName
      let below ← children.load (Path.child path name.text) []
      if let some first := seen.get? name then
        throw (.declaredTwice (Path.child path name.text) first.qualifiedName h.qualifiedName)
      let after ← rest.load path (seen.put name h)
      return .cons name kind h.visibility below after

/-- What can be handed over for loading. -/
inductive Source where
  | value (given : Value)
  | node (n : Node)

/-- The tree of a schema node; its path is empty whatever its name is. -/
def Node.load (n : Node) : Traced Tree :=
  match n.header.kind? with
  | none => do
    Traced.emit [.skipped n.header.nodeClass.title n.header.name]
    throw (.outsideDataTree n.header.nodeClass.title)
  | some kind => return ⟨kind, n.header.visibility, ← n.children.load "" []⟩

/-- A schema that holds the loaded tree, its root first. -/
def Source.load : Source → Traced Schema
  | value v => throw (.notLoadable v)
  | node n => return Schema.empty.plant (← n.load) n.header.localName "" none

/-- Loads a source where the means to do so may be missing. -/
def Source.loadIf (available : Bool) (source : Source) : Traced Schema :=
  if available then source.load else throw .loaderUnavailable

end DataTree.Yang
