import DataTree.Resolution

/-!
# Expectations

Whether a node resolves to exactly the expected names.
-/

namespace DataTree

structure Expectation where
  names : List Name
  allowDefects : Bool

namespace Expectation

/-- The names of `xs` that are not in `ys`, each once, in order. -/
def difference (xs ys : List Name) : List Name :=
  (xs.eraseDups.filter (· ∉ ys)).mergeSort Name.le

/-- Why a child set of the node at `path` is not as expected. -/
def check (e : Expectation) (path : String) (p : Policy) (r : ChildSet) : Except Fault Unit :=
  let missing := difference e.names r.children.keys
  let unexpected := difference r.children.keys e.names
  if missing.isEmpty && unexpected.isEmpty && (r.isSound || e.allowDefects) then .ok ()
  else .error (.unexpectedChildren path p missing unexpected r.defects)

end Expectation

/-- Resolves node `i` and compares the outcome with the expectation. -/
def Schema.expect (s : Schema) (policy : Value) (i : NodeId) (e : Expectation) : Traced Unit := do
  let p ← policy.member Policy
  Traced.emit (s.resolveEvents p i)
  e.check (s.node i).path p (s.resolve p i)

end DataTree
