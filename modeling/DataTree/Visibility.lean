import DataTree.Vocabulary

/-!
# Declared visibility

A node may declare that it is writable or read-only, or declare nothing and take the visibility of
the node above it.
-/

namespace DataTree

inductive Visibility where
  | writable
  | readOnly
  | inherited
  deriving DecidableEq, Repr, Inhabited

namespace Visibility

instance : Vocabulary Visibility where
  title := "ConfigVisibility"
  members := [.writable, .readOnly, .inherited]
  word
    | .writable => "writable"
    | .readOnly => "read_only"
    | .inherited => "inherited"
  mem_members a := by cases a <;> simp
  word_inj a b := by cases a <;> cases b <;> simp

def ofBool : Bool → Visibility
  | true => .writable
  | false => .readOnly

end Visibility

end DataTree
