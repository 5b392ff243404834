import DataTree.Plan
import DataTree.Yang.Load

/-!
# Flattening loaded schemas

A loaded schema may have nodes without a name. One of these has no place in the order of its
siblings, so a walk goes no further than the first entity with such a child next to others.
-/

namespace DataTree.Yang

/-- The child sets of all entities below `root` by path. -/
def flatten (plan : Plan) (s : Schema) (root : NodeId) : Traced (Entries String ChildSet) :=
  let visits := plan.visits s root
  match visits.findSome? fun v => v.resolved.disorder? with
  | none => plan.flatten s root
  | some fault =>
    let count := visits.findIdx fun v => v.resolved.disorder?.isSome
    ⟨((plan.walk root).take s (count + 1)).events, .error fault⟩

end DataTree.Yang
