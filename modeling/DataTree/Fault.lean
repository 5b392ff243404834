import DataTree.Defect
import DataTree.Entries
import DataTree.Kind
import DataTree.Path
import DataTree.Policy
import DataTree.Value

/-!
# Faults

Why a request is refused. Each cause holds what its message shows.
-/

namespace DataTree

open Text (quoted quotedList)

inductive Fault where
  /-- The description of node `name` is no mapping. -/
  | notMapping (name : Name) (given : Value)
  /-- The children of node `name` are no mapping. -/
  | childrenNotMapping (name : Name) (given : Value)
  | unknownKind (name : Name) (given : Value)
  | unknownVisibility (name : Name) (given : Value)
  /-- A node of a kind without children declares some. -/
  | childrenRefused (kind : Kind) (path : String)
  /-- A value names no member of the vocabulary with this title. -/
  | notMember (title : String) (given : Value)
  | missingKey (key : String)
  /-- Defects where none are allowed. -/
  | defective (defects : List Defect)
  /-- The children of the node at `path` are not the expected ones. -/
  | unexpectedChildren (path : String) (policy : Policy) (missing unexpected : List Name)
      (defects : List Defect)
  | loaderUnavailable
  /-- Something other than a schema node is to be loaded. -/
  | notLoadable (given : Value)
  /-- A schema node of class `title` is outside the data tree. -/
  | outsideDataTree (title : String)
  /-- Two siblings would be the node at `path`. -/
  | declaredTwice (path first second : String)
  /-- Two names to be compared, of which the left or the right one is missing. -/
  | unordered (missingLeft : Bool)

namespace Fault

def message : Fault → String
  | notMapping name v =>
    "Node description for " ++ name.quoted ++ " must be a mapping, got " ++ v.typeText
  | childrenNotMapping name v =>
    "children of " ++ name.quoted ++ " must be a mapping, got " ++ v.typeText
  | unknownKind name v => "Unknown kind " ++ v.text ++ " for node " ++ name.quoted
  | unknownVisibility name v => "Unknown config value " ++ v.text ++ " for node " ++ name.quoted
  | childrenRefused kind path =>
    Vocabulary.word kind ++ " node " ++ quoted path ++ " cannot declare children"
  | notMember title v => v.text ++ " is not a valid " ++ title
  | missingKey key => quoted key
  | defective ds => Defect.report ds
  | unexpectedChildren path policy missing unexpected ds =>
    "Resolved children of " ++ Path.shown path ++ " under " ++ Vocabulary.word policy ++
      " differ:\n" ++
      "  missing:    " ++ Name.listText missing ++ "\n" ++
      "  unexpected: " ++ Name.listText unexpected ++ "\n" ++
      "  errors:     " ++ quotedList (ds.map Defect.message)
  | loaderUnavailable =>
    "yangson is required for YangsonLoader. " ++
      "Install it with: pip install schema-flatten[yangson]"
  | notLoadable v => "Expected a yangson DataModel or SchemaNode, got " ++ v.typeText
  | outsideDataTree title => title ++ " has no data tree counterpart"
  | declaredTwice path first second =>
    path ++ " is declared twice: " ++ first ++ " and " ++ second
  | unordered true => "'<' not supported between instances of 'NoneType' and 'str'"
  | unordered false => "'<' not supported between instances of 'str' and 'NoneType'"

end Fault

/-- The member of a vocabulary that `v` names. -/
def Value.member (α : Type) [Vocabulary α] (v : Value) : Except Fault α :=
  match v.member? α with
  | some a => .ok a
  | none => .error (.notMember (Vocabulary.title α) v)

end DataTree
