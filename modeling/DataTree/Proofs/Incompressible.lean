import DataTree.Proofs.Exclusion
import DataTree.Proofs.Flattening

/-!
# Where there is nothing to compress

A tree is incompressible if compression finds nothing in it to act on: no side, no container or
list that holds one list and nothing else, no leafref in a list. There a policy that only prefers a
side resolves each node as if it did not compress, defects included
(`Wired.resolve_eq_uncompressed`), so a walk and what is made of it are the same, too
(`IsBuilt.compression_idle`).
-/

namespace DataTree.Schema

variable {s : Schema} {root n m : Nat} {p : Policy}

/-- Nothing that compression would act on is a child of any node. -/
def Incompressible (s : Schema) (root : NodeId) : Prop :=
  ∀ i ∈ s.subtree root, ∀ c ∈ s.children i,
    ((s.node c).name ≠ some "config" ∧ (s.node c).name ≠ some "state") ∧
    ((s.node c).kind.isEntity = true → (s.children c).length = 1 →
      ∀ x ∈ s.children c, (s.node x).kind ≠ .list) ∧
    ((s.node i).kind = .list → (s.node c).kind ≠ .leafref)

instance (s : Schema) (root : NodeId) : Decidable (s.Incompressible root) :=
  inferInstanceAs (Decidable (∀ i ∈ s.subtree root, ∀ c ∈ s.children i, _ ∧ _ ∧ _))

/-! ## Children that are kept as they are -/

namespace Incompressible

variable (hs : s.Incompressible root) (hn : n ∈ s.subtree root) (hm : m ∈ s.children n)
include hs hn hm

theorem name_ne (side : Side) : (s.node m).name ≠ some side.name := by
  cases side with
  | config => exact (hs n hn m hm).1.1
  | state => exact (hs n hn m hm).1.2

theorem side?_eq_none : (s.node m).side? = none := by
  cases hside : (s.node m).side? with
  | none => rfl
  | some side => exact (hs.name_ne hn hm side (Node.side?_eq_some_iff.1 hside).2).elim

theorem isKeyReference_eq_false : s.isKeyReference n m = false :=
  decide_eq_false fun ⟨hlist, href⟩ => (hs n hn m hm).2.2 hlist href

/-- A list that is all there is below a child stands in a choice or case. -/
theorem isWrapper_of_soleList {x : NodeId} (hx : s.soleList? m = some x) :
    (s.node m).kind.isWrapper = true := by
  obtain ⟨hdir, hcs, hlist⟩ := soleList?_eq_some_iff.1 hx
  have hone : (s.children m).length = 1 := by rw [hcs]; rfl
  have hmem := mem_children_of_soleList? hx
  rcases Bool.or_eq_true_iff.1 hdir with hent | hwrap
  · exact ((hs n hn m hm).2.1 hent hone x hmem hlist).elim
  · exact hwrap

end Incompressible

namespace Wired

theorem plainOffers_of_soleList (h : s.Wired root) (hm : root ≤ m) {x : NodeId}
    (hx : s.soleList? m = some x) (hw : (s.node m).kind.isWrapper = true) :
    s.plainOffers m = [.plain x] := by
  obtain ⟨-, hcs, hlist⟩ := soleList?_eq_some_iff.1 hx
  have hmem := mem_children_of_soleList? hx
  have hdata : (s.node x).kind.isWrapper = false := by rw [hlist]; rfl
  rw [plainOffers, h.frontier_of_wrapper hm (lt_size_of_mem_children hmem) hw, members, hcs,
    List.flatMap_singleton, h.frontier_of_data (h.root_le_child hm hmem) (h.child_lt_size hm hmem)
      hdata]
  rfl

theorem compressedOffers_eq_plainOffers (h : s.Wired root) (hs : s.Incompressible root)
    (hp : p.excludesState = false) (hn : n ∈ s.subtree root) (hm : m ∈ s.children n)
    (side : Side) : s.compressedOffers p side n m = s.plainOffers m := by
  rw [compressedOffers, if_pos (admits_of_not_excludesState hp m), hs.side?_eq_none hn hm,
    hs.isKeyReference_eq_false hn hm]
  cases hx : s.soleList? m with
  | none => rfl
  | some x =>
    have hrm := h.root_le_child (h.mem_subtree_root_iff.1 hn).1 hm
    simp only [if_pos (admits_of_not_excludesState hp x)]
    exact (h.plainOffers_of_soleList hrm hx (hs.isWrapper_of_soleList hn hm hx)).symm

/-- The preferred side is not there to go first. -/
theorem scheduled_eq_children (h : s.Wired root) (hs : s.Incompressible root)
    (hn : n ∈ s.subtree root) (side : Side) : s.scheduled side n = s.children n := by
  have hnone : ((s.children n).filter fun c => (s.node c).name = some side.name) = [] :=
    List.filter_eq_nil_iff.2 fun c hc => by simpa using hs.name_ne hn hc side
  have hall : ((s.children n).filter fun c => (s.node c).name ≠ some side.name) = s.children n :=
    List.filter_eq_self.2 fun c hc => by simpa using hs.name_ne hn hc side
  rw [h.scheduled_eq (h.mem_subtree_root_iff.1 hn).1, hnone, hall, ite_self, List.nil_append]

/-- Every child offers the data nodes that it stands for. -/
theorem offers_eq_plainOffers (h : s.Wired root) (hs : s.Incompressible root)
    (hp : p.excludesState = false) (hn : n ∈ s.subtree root) :
    s.offers p n = (s.children n).flatMap s.plainOffers := by
  have hconsidered : s.considered p n = s.children n := by
    unfold considered
    cases p.preferred? with
    | none => rfl
    | some side => exact h.scheduled_eq_children hs hn side
  rw [offers_eq_flatMap, hconsidered]
  refine List.flatMap_congr fun m hm => ?_
  unfold childOffers
  cases p.preferred? with
  | none => exact if_pos (admits_of_not_excludesState hp m)
  | some side => exact h.compressedOffers_eq_plainOffers hs hp hn hm side

/-! ## Nodes and walks -/

theorem resolve_eq_uncompressed (h : s.Wired root) (hs : s.Incompressible root)
    (hp : p.excludesState = false) (hn : n ∈ s.subtree root) :
    s.resolve p n = s.resolve .uncompressed n := by
  rw [resolve, resolve, if_pos (admits_of_not_excludesState hp n),
    if_pos (admits_of_not_excludesState rfl n), h.offers_eq_plainOffers hs hp hn,
    h.offers_eq_plainOffers hs rfl hn]

theorem visits_eq_uncompressed (h : s.Wired root) (hs : s.Incompressible root)
    (hp : p.excludesState = false) (hn : root ≤ n) (hlt : n < s.size) :
    (Walk.start p n).visits s = (Walk.start .uncompressed n).visits s := by
  refine h.visits_congr hn hlt fun i hi => h.resolve_eq_uncompressed hs hp ?_
  exact h.mem_subtree_root_iff.2 ⟨h.root_le_below hn hi, h.atOrBelow_lt_size hn hlt hi⟩

end Wired

/-- Compression is idle: nodes, walks, flattening and defects are as without it. -/
theorem IsBuilt.compression_idle (h : s.IsBuilt root) (hs : s.Incompressible root)
    (hp : p = .compressedPreferConfig ∨ p = .compressedPreferState) :
    (∀ n ∈ s.subtree root, s.resolve p n = s.resolve .uncompressed n) ∧
      ∀ r ∈ s.subtree root,
        (Walk.start p r).visits s = (Walk.start .uncompressed r).visits s ∧
        ∀ strict,
          (Plan.flatten ⟨p, strict⟩ s r).outcome =
            (Plan.flatten ⟨.uncompressed, strict⟩ s r).outcome ∧
          (Plan.findDefects ⟨p, strict⟩ s r).outcome =
            (Plan.findDefects ⟨.uncompressed, strict⟩ s r).outcome := by
  have hw := h.wired
  have hexcludes : p.excludesState = false := by
    rcases hp with rfl | rfl <;> rfl
  refine ⟨fun n hn => hw.resolve_eq_uncompressed hs hexcludes hn, fun r hr => ?_⟩
  obtain ⟨hle, hlt⟩ := h.range_of_mem_subtree hr
  have hvisits := hw.visits_eq_uncompressed hs hexcludes hle hlt
  have hplan : ∀ strict, Plan.visits ⟨p, strict⟩ s r = Plan.visits ⟨.uncompressed, strict⟩ s r :=
    fun _ => hvisits
  refine ⟨hvisits, fun strict => ⟨?_, ?_⟩⟩
  · rw [Plan.flatten_outcome, Plan.flatten_outcome, hplan]
  · rw [Plan.findDefects_outcome, Plan.findDefects_outcome, hplan]

/-- A hub with a choice of one list, wrappers in wrappers, and names that clash. -/
def hubDescription : Value :=
  .map [("children", .map [
    ("only", .map [("kind", .str "choice"), ("children", .map [
      ("slot", .map [("kind", .str "list"), ("children", .map [("id", .map [])])])])]),
    ("pick", .map [("kind", .str "choice"), ("children", .map [
      ("wide", .map [("kind", .str "case"), ("children", .map [("slot", .map []),
        ("peer", .map [("type", .str "leafref")])])])])]),
    ("box", .map [("children", .map [("peer", .map [("type", .str "leafref")])])])])]

def hubSchema : Schema :=
  ((empty.build hubDescription (some "hub") none).toOption).getD empty

theorem hubSchema_isBuilt : hubSchema.IsBuilt 0 :=
  ⟨empty, hubDescription, some "hub", none, nofun, rfl, rfl⟩

theorem compression_idle_hubSchema :
    hubSchema.IsBuilt 0 ∧ hubSchema.Incompressible 0 ∧ 0 ∈ hubSchema.subtree 0 ∧
      hubSchema.resolve .compressedPreferState 0 = hubSchema.resolve .uncompressed 0 ∧
      (Walk.start .compressedPreferState 0).visits hubSchema =
        (Walk.start .uncompressed 0).visits hubSchema := by
  have hs : hubSchema.Incompressible 0 := by decide
  have hr : 0 ∈ hubSchema.subtree 0 := by decide
  have hidle := hubSchema_isBuilt.compression_idle hs (.inr rfl)
  exact ⟨hubSchema_isBuilt, hs, hr, hidle.1 0 hr, (hidle.2 0 hr).1⟩

/-- The list that is alone in its choice comes first, and the leaf of its name is a duplicate. -/
example : (hubSchema.resolve .compressedPreferState 0).defects =
    [⟨.duplicate, "/hub/pick/wide/slot", some "slot"⟩] := by
  decide

end DataTree.Schema
