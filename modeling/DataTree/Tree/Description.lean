import DataTree.Fault
import DataTree.Tree

/-!
# Descriptions

A tree is described by nested mappings. `kind` is the word of a kind; without it, a description
that mentions `children` is a container and any other a leaf. A leaf of type `leafref` is a
leafref. `config` is a truth value, nothing, or the word of a visibility. The first fault in
pre-order is reported; within one description, the checks are made in the order in which
`Tree.ofValue` lists them.
-/

namespace DataTree

namespace Description

/-- The kind that a description asks for before its type is looked at. -/
def declaredKind (name : Name) (fields : Entries String Value) : Except Fault Kind :=
  match fields.get? "kind" with
  | none | some .null => .ok (if fields.has "children" then .container else .leaf)
  | some v =>
    match v.member? Kind with
    | some kind => .ok kind
    | none => .error (.unknownKind name v)

def isReference (fields : Entries String Value) : Bool :=
  match fields.get? "type" with
  | some (.str t) => t = "leafref"
  | _ => false

def kind (name : Name) (fields : Entries String Value) : Except Fault Kind := do
  match ← declaredKind name fields with
  | .leaf => return if isReference fields then .leafref else .leaf
  | k => return k

def visibility (name : Name) (fields : Entries String Value) : Except Fault Visibility :=
  match fields.get? "config" with
  | none | some .null => .ok .inherited
  | some (.bool b) => .ok (.ofBool b)
  | some v =>
    match v.member? Visibility with
    | some declared => .ok declared
    | none => .error (.unknownVisibility name v)

/-- The fault of a `children` field that is neither a mapping nor nothing. -/
def checkChildren (name : Name) (fields : Entries String Value) : Except Fault Unit :=
  match fields.get? "children" with
  | none | some .null | some (.map _) => .ok ()
  | some v => .error (.childrenNotMapping name v)

def declaresChildren (fields : Entries String Value) : Bool :=
  match fields.get? "children" with
  | some (.map (_ :: _)) => true
  | _ => false

/-- The node itself, without its children. -/
def header (name : Name) (path : String) (fields : Entries String Value) :
    Except Fault (Kind × Visibility) := do
  checkChildren name fields
  let k ← kind name fields
  let v ← visibility name fields
  if declaresChildren fields && !k.isDirectory then
    throw (.childrenRefused k path)
  return (k, v)

end Description

mutual

/-- The tree that a description describes, for a node of this name and path. -/
def Tree.ofValue (name : Name) (path : String) : Value → Except Fault Tree
  | .map fields => do
    let (kind, visibility) ← Description.header name path fields
    return ⟨kind, visibility, ← Forest.ofFields path fields⟩
  | v => throw (.notMapping name v)

/-- The children that the fields of a description declare. -/
def Forest.ofFields (path : String) : List (String × Value) → Except Fault Forest
  | [] => return .nil
  | (key, v) :: rest =>
    if key = "children" then
      match v with
      | .map entries => Forest.ofEntries path [] entries
      | _ => return .nil
    else Forest.ofFields path rest

/-- Siblings from their descriptions, leaving out the keys already `seen`. -/
def Forest.ofEntries (path : String) (seen : List String) :
    List (String × Value) → Except Fault Forest
  | [] => return .nil
  | (key, v) :: rest =>
    if key ∈ seen then Forest.ofEntries path seen rest
    else do
      let tree ← Tree.ofValue (some key) (Path.child path key) v
      let siblings ← Forest.ofEntries path (key :: seen) rest
      return .cons (some key) tree.kind tree.visibility tree.children siblings

end

end DataTree
