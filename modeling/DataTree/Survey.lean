import DataTree.Resolution

/-!
# Surveys

Every node at or below a root, resolved under each of several policies.
-/

namespace DataTree

/-- What one node has under one policy. -/
structure Finding where
  node : NodeId
  policy : Policy
  resolved : ChildSet
  deriving DecidableEq, Repr

namespace Schema

def findings (s : Schema) (i : NodeId) : List Value → Traced (List Finding)
  | [] => return []
  | policy :: rest => do
    let p ← policy.member Policy
    Traced.emit (s.resolveEvents p i)
    return ⟨i, p, s.resolve p i⟩ :: (← s.findings i rest)

/-- The findings for the given nodes, in order. -/
def surveyAll (s : Schema) (policies : List Value) : List NodeId → Traced (List Finding)
  | [] => return []
  | i :: rest => do
    let here ← s.findings i policies
    return here ++ (← s.surveyAll policies rest)

def survey (s : Schema) (root : NodeId) (policies : List Value) : Traced (List Finding) :=
  s.surveyAll policies (s.subtree root)

end Schema

end DataTree
