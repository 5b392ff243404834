import DataTree.Walk

/-!
# Plans

A plan is a policy to flatten whole schemas under, and whether defects are tolerated.
-/

namespace DataTree

structure Plan where
  policy : Policy
  strict : Bool
  deriving DecidableEq, Repr

namespace Plan

/-- The plan with the policy that a value names. -/
def ofValue (policy : Value) (strict : Bool) : Except Fault Plan := do
  return ⟨← policy.member Policy, strict⟩

/-- Resolves one node and warns about its defects. -/
def resolve (plan : Plan) (s : Schema) (i : NodeId) : Traced ChildSet :=
  let v : Visit := ⟨i, s.resolve plan.policy i⟩
  ⟨v.resolveEvents s plan.policy, .ok v.resolved⟩

def walk (plan : Plan) (root : NodeId) : Walk :=
  .start plan.policy root

def visits (plan : Plan) (s : Schema) (root : NodeId) : List Visit :=
  (plan.walk root).visits s

/-- The defects of all visits, in their order. -/
def defects (visits : List Visit) : List Defect :=
  visits.flatMap fun v => v.resolved.defects

/-- The first `count` visits of a walk from `root`. -/
def firstVisits (plan : Plan) (s : Schema) (root : NodeId) (count : Nat) : Traced (List Visit) :=
  let made := (plan.walk root).take s count
  ⟨made.events, .ok made.shown⟩

/-- All visits of a walk from `root`. -/
def allVisits (plan : Plan) (s : Schema) (root : NodeId) : Traced (List Visit) :=
  let made := (plan.walk root).finish s
  ⟨made.events, .ok made.shown⟩

/-- The defects below `root`, in the order of the walk. -/
def findDefects (plan : Plan) (s : Schema) (root : NodeId) : Traced (List Defect) := do
  return defects (← plan.allVisits s root)

/-- The child sets of all entities below `root` by path. A strict plan refuses defects. -/
def flatten (plan : Plan) (s : Schema) (root : NodeId) : Traced (Entries String ChildSet) := do
  let visits ← plan.allVisits s root
  let found := defects visits
  let sets := Entries.ofList (visits.map fun v => (v.path s, v.resolved))
  Traced.emit [.flattened sets.length found.length]
  if plan.strict && !found.isEmpty then
    throw (.defective found)
  return sets

end Plan

end DataTree
