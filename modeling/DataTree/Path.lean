import DataTree.Name

/-!
# Paths

A node's path is the chain of names down to it, each after a slash.
-/

namespace DataTree.Path

def child (path name : String) : String :=
  path ++ "/" ++ name

/-- The path of a root, which is empty if the name is missing or empty. -/
def root : Name → String
  | none | some "" => ""
  | some name => child "" name

/-- A path as messages show it: an empty one as a slash. -/
def shown (path : String) : String :=
  if path = "" then "/" else path

@[simp] theorem shown_empty : shown "" = "/" := rfl

@[simp] theorem shown_of_ne_empty {path : String} (h : path ≠ "") : shown path = path :=
  if_neg h

end DataTree.Path
