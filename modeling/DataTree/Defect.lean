import DataTree.Name

/-!
# Structural defects

What is wrong with the schema around a node. A defect never stops a resolution: it is recorded
next to the result.
-/

namespace DataTree

open Text (quoted)

/-- The ways in which the children of a node can be at fault. -/
inductive Defect.Form where
  | structural
  | duplicate
  | nestedPair
  deriving DecidableEq, Repr

/-- A defect of the node at `path`, over `name`. -/
structure Defect where
  form : Defect.Form
  path : String
  name : Name
  deriving DecidableEq, Repr

namespace Defect

def Form.title : Form → String
  | structural => "StructuralError"
  | duplicate => "DuplicateChildName"
  | nestedPair => "NestedConfigStatePair"

def message (d : Defect) : String :=
  match d.form with
  | .structural => d.path ++ ": structural error"
  | .duplicate => d.path ++ " was duplicate"
  | .nestedPair =>
    d.path ++ " is a " ++ d.name.text ++ " container nested in a config/state container"

/-- A defect with its fields: `Title(path='…', name='…')`. -/
def text (d : Defect) : String :=
  d.form.title ++ "(path=" ++ quoted d.path ++ ", name=" ++ d.name.quoted ++ ")"

/-- A report of several defects. -/
def report (ds : List Defect) : String :=
  toString ds.length ++ " structural error(s):\n" ++
    "\n".intercalate (ds.map fun d => "  " ++ d.message)

end Defect

end DataTree
