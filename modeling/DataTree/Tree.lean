import DataTree.Kind
import DataTree.Name
import DataTree.Visibility

/-!
# Trees of named nodes

The nested form of a schema, before its nodes have identities. Siblings are listed by first child
and next sibling, so a forest is either empty or a node, what is below it and what is after it.
-/

namespace DataTree

/-- Named siblings in declaration order. -/
inductive Forest where
  | nil
  | cons (name : Name) (kind : Kind) (visibility : Visibility) (children rest : Forest)
  deriving DecidableEq, Repr, Inhabited

/-- A node without its name, and all that is below it. -/
structure Tree where
  kind : Kind
  visibility : Visibility
  children : Forest
  deriving DecidableEq, Repr, Inhabited

namespace Forest

/-- The number of nodes, at all levels. -/
def size : Forest → Nat
  | nil => 0
  | cons _ _ _ children rest => children.size + rest.size + 1

def names : Forest → List Name
  | nil => []
  | cons name _ _ _ rest => name :: rest.names

end Forest

def Tree.size (t : Tree) : Nat :=
  t.children.size + 1

end DataTree
