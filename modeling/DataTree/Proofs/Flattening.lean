import DataTree.Proofs.Ownership
import DataTree.Proofs.Paths

/-!
# Flattening by paths

Flattening keeps the child sets of a walk under the paths of the visited nodes. No node is visited
twice and, where no name holds a slash, no two nodes have the same path. So no child set takes the
place of another, and what a strict plan refuses is what a lenient one shows
(`IsBuilt.flattens`).
-/

namespace DataTree

variable {s : Schema} {root r : Nat} {p : Policy}

/-! ## Outcomes of plans -/

namespace Plan

/-- What visits show by the paths of the nodes. -/
def pairs (s : Schema) (visits : List Visit) : Entries String ChildSet :=
  visits.map fun v => (v.path s, v.resolved)

theorem findDefects_outcome (plan : Plan) (s : Schema) (r : NodeId) :
    (plan.findDefects s r).outcome = .ok (defects (plan.visits s r)) := rfl

theorem flatten_outcome (plan : Plan) (s : Schema) (r : NodeId) :
    (plan.flatten s r).outcome =
      if plan.strict && !(defects (plan.visits s r)).isEmpty then
        .error (.defective (defects (plan.visits s r)))
      else .ok (Entries.ofList (pairs s (plan.visits s r))) := by
  have hall : (plan.allVisits s r).outcome = .ok (plan.visits s r) := rfl
  unfold flatten
  rw [Traced.bind_of_ok hall]
  cases hc : plan.strict && !(defects (plan.visits s r)).isEmpty <;>
    simp only [hc, Bool.false_eq_true, if_false, if_true] <;> rfl

theorem values_pairs_flatMap (s : Schema) (visits : List Visit) :
    (pairs s visits).values.flatMap ChildSet.defects = defects visits := by
  rw [pairs, Entries.values, List.map_map, List.flatMap_map]
  rfl

end Plan

namespace Schema

/-- A walk never comes to the same path twice. -/
theorem IsBuilt.nodup_keys_pairs (h : s.IsBuilt root) (hs : s.Slashless root)
    (hr : r ∈ s.subtree root) (p : Policy) :
    (Plan.pairs s ((Walk.start p r).visits s)).keys.Nodup := by
  have hw := h.wired
  obtain ⟨hle, hlt⟩ := h.range_of_mem_subtree hr
  have hsub : ∀ i ∈ s.entities p r, i ∈ s.subtree root := fun i hi => by
    have hwalk := (hw.mem_entities_iff hle hlt).1 hi
    exact hw.mem_subtree_root_iff.2 ⟨hwalk.root_le hw hle, hwalk.lt_size hw hle hlt⟩
  rw [hw.visits_eq p hle hlt, Plan.pairs, Entries.keys, List.map_map, List.map_map]
  refine List.Nodup.map_on ?_ (hw.nodup_entities p hle hlt)
  exact fun i hi j hj e => h.path_inj hs (hsub i hi) (hsub j hj) e

/-- `sets` is what flattening gives for the walk from `r`, and `found` what is wrong with it. -/
structure Flattens (s : Schema) (p : Policy) (r : NodeId) (sets : Entries String ChildSet)
    (found : List Defect) : Prop where
  pairs : sets = ((Walk.start p r).visits s).map fun v => (v.path s, v.resolved)
  nodup_keys : sets.keys.Nodup
  record : sets.values.flatMap ChildSet.defects = found
  defects : ∀ strict, (Plan.findDefects ⟨p, strict⟩ s r).outcome = .ok found
  lenient : (Plan.flatten ⟨p, false⟩ s r).outcome = .ok sets
  strict : (Plan.flatten ⟨p, true⟩ s r).outcome =
    if found = [] then .ok sets else .error (.defective found)

/-- Where names have no slash, flattening loses nothing, and a strict plan only looks at the
defects. -/
theorem IsBuilt.flattens (h : s.IsBuilt root) (hs : s.Slashless root)
    (hr : r ∈ s.subtree root) (p : Policy) :
    (∀ i ∈ s.subtree root, ∀ j ∈ s.subtree root, (s.node i).path = (s.node j).path → i = j) ∧
      ∃ sets found, s.Flattens p r sets found := by
  have hkeys := h.nodup_keys_pairs hs hr p
  have hsets := Entries.ofList_of_nodup hkeys
  refine ⟨fun i hi j hj e => h.path_inj hs hi hj e, Plan.pairs s ((Walk.start p r).visits s),
    Plan.defects ((Walk.start p r).visits s), rfl, hkeys, Plan.values_pairs_flatMap s _,
    fun strict => Plan.findDefects_outcome _ s r, ?lenient, ?strict⟩
  case lenient =>
    rw [Plan.flatten_outcome]
    exact congrArg Except.ok hsets
  case strict =>
    have hvisits : Plan.visits ⟨p, true⟩ s r = (Walk.start p r).visits s := rfl
    rw [Plan.flatten_outcome, hvisits, hsets]
    cases Plan.defects ((Walk.start p r).visits s) <;> rfl

/-- Two ports side by side, each with a clash. -/
def rackDescription : Value :=
  .map [("children", .map [
    ("left", .map [("children", .map [("mtu", .map []),
      ("config", .map [("children", .map [("mtu", .map [])])])])]),
    ("right", .map [("children", .map [("mtu", .map []),
      ("config", .map [("children", .map [("mtu", .map [])])])])])])]

def rackSchema : Schema :=
  ((empty.build rackDescription (some "rack") none).toOption).getD empty

theorem rackSchema_isBuilt : rackSchema.IsBuilt 0 :=
  ⟨empty, rackDescription, some "rack", none, nofun, rfl, rfl⟩

theorem flattens_rackSchema :
    rackSchema.IsBuilt 0 ∧ rackSchema.Slashless 0 ∧ 0 ∈ rackSchema.subtree 0 ∧
      ∃ sets found, rackSchema.Flattens .compressedPreferConfig 0 sets found := by
  have hs : rackSchema.Slashless 0 := by decide
  have hr : 0 ∈ rackSchema.subtree 0 := by decide
  exact ⟨rackSchema_isBuilt, hs, hr,
    (rackSchema_isBuilt.flattens hs hr .compressedPreferConfig).2⟩

end Schema

end DataTree
