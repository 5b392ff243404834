import DataTree.Schema.Basic
import DataTree.Text.Quoted

/-!
# Schemas as text

A node is shown with its fields and, nested, its children. A node that is met again inside itself
is shown as three dots, so nodes that refer to each other have a text too.
-/

namespace DataTree.Schema

open Text (quoted commaList)

def dots : String := "..."

/-- Node `i` inside the nodes of `enclosing`, `depth` levels deep. -/
def textWithin (s : Schema) : Nat → List NodeId → NodeId → String
  | 0, _, _ => dots
  | depth + 1, enclosing, i =>
    if i ∈ enclosing then dots
    else
      let n := s.node i
      let children := n.children.map fun entry =>
        entry.1.quoted ++ ": " ++ s.textWithin depth (i :: enclosing) entry.2
      "SchemaNode(name=" ++ n.name.quoted ++ ", kind=" ++ Vocabulary.text n.kind ++
        ", config=" ++ Vocabulary.text n.visibility ++ ", path=" ++ quoted n.path ++
        ", children=\x7b" ++ commaList children ++ "\x7d)"

/-- Enough depth for every node to be shown once inside itself. -/
def text (s : Schema) (i : NodeId) : String :=
  s.textWithin (s.size + 1) [] i

end DataTree.Schema
