import DataTree.Vocabulary

/-!
# Kinds of schema nodes

Containers, lists, choices and cases are directories: they may have children. Choices and cases
are wrappers, which group alternatives and have no data of their own.
-/

namespace DataTree

inductive Kind where
  | leaf
  | leafref
  | container
  | list
  | choice
  | case
  deriving DecidableEq, Repr, Inhabited

namespace Kind

instance : Vocabulary Kind where
  title := "NodeKind"
  members := [.leaf, .leafref, .container, .list, .choice, .case]
  word
    | .leaf => "leaf"
    | .leafref => "leafref"
    | .container => "container"
    | .list => "list"
    | .choice => "choice"
    | .case => "case"
  mem_members a := by cases a <;> simp
  word_inj a b := by cases a <;> cases b <;> simp

def isWrapper : Kind → Bool
  | .choice | .case => true
  | _ => false

/-- The kinds whose nodes get children of their own in the data tree. -/
def isEntity : Kind → Bool
  | .container | .list => true
  | _ => false

def isDirectory (k : Kind) : Bool :=
  k.isEntity || k.isWrapper

theorem isWrapper_of_isEntity {k : Kind} (h : k.isEntity = true) : k.isWrapper = false := by
  cases k <;> first | rfl | cases h

end Kind

end DataTree
