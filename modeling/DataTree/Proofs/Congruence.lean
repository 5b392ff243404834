import DataTree.Proofs.Inheritance
import DataTree.Proofs.Mirror

/-!
# The same subtree in two places

`s.Congruent n s' n'`: below `n` and `n'`, nodes in the same place have the same kind and the same
keys in the same order. What stands above them, their own names and their paths may differ.

Resolution looks up from a node for one thing only, its effective visibility, and that of what is
below follows from it and the declarations below (`SamePlace.writable_eq`). So two congruent nodes
are resolved alike if they agree in both, or if the policy does not look at visibility at all
(`Congruent.mirrored_resolve`), and walks from them go through the same places
(`IsBuilt.walks_alike`).
-/

namespace DataTree

variable {s s' : Schema} {R R' : Nat → Nat → Prop}

/-! ## Mirrored results the other way round -/

theorem Entries.Mirrored.flip {α β κ : Type} {S : α → β → Prop} {S' : β → α → Prop}
    (hS : ∀ a b, S' b a → S a b) {m : Entries κ α} {m' : Entries κ β}
    (h : Entries.Mirrored id S' m' m) : Entries.Mirrored id S m m' :=
  List.Forall₂.imp (fun _ _ he => ⟨he.1.symm, hS _ _ he.2⟩) (List.Forall₂.flip h)

theorem Defect.Alike.flip (hR : ∀ x x', R' x' x → R x x') {d d' : Defect}
    (h : Defect.Alike s' s R' d' d) : Defect.Alike s s' R d d' := by
  cases h with
  | duplicate hx => exact .duplicate (hR _ _ hx)
  | nestedPair hx => exact .nestedPair (hR _ _ hx)

theorem ChildSet.Mirrored.flip (hR : ∀ x x', R' x' x → R x x') {r r' : ChildSet}
    (h : ChildSet.Mirrored s' s id R' r' r) : ChildSet.Mirrored s s' id R r r' :=
  ⟨Entries.Mirrored.flip hR h.children,
    h.defects.flip.imp fun _ _ hd => Defect.Alike.flip hR hd⟩

/-- Visits of related nodes, with related children and the same defects of related nodes. -/
structure Visit.Mirrored (s s' : Schema) (R : Nat → Nat → Prop) (v v' : Visit) : Prop where
  node : R v.node v'.node
  resolved : ChildSet.Mirrored s s' id (s.Counterparts s' id R) v.resolved v'.resolved

namespace Schema

variable {root root' : Nat} {n n' i i' : Nat} {p : Policy}

/-! ## Congruent nodes -/

structure Congruent (s : Schema) (n : NodeId) (s' : Schema) (n' : NodeId) : Prop where
  kind : ∀ {i i' : Nat}, SamePlace s n s' n' i i' → (s.node i).kind = (s'.node i').kind
  keys : ∀ {i i' : Nat}, SamePlace s n s' n' i i' →
    (s.node i).children.keys = (s'.node i').children.keys

/-- Below `n` and `n'`, nodes in the same place declare the same visibility. -/
def DeclareAlike (s : Schema) (n : NodeId) (s' : Schema) (n' : NodeId) : Prop :=
  ∀ {i i' c c' : Nat} {key : Name}, SamePlace s n s' n' i i' →
    (s.node i).children.get? key = some c → (s'.node i').children.get? key = some c' →
    (s.node c).visibility = (s'.node c').visibility

theorem Congruent.symm (h : s.Congruent n s' n') : s'.Congruent n' s n where
  kind hr := (h.kind hr.symm).symm
  keys hr := (h.keys hr.symm).symm

theorem DeclareAlike.symm (h : s.DeclareAlike n s' n') : s'.DeclareAlike n' s n :=
  fun hr hc hc' => (h hr.symm hc' hc).symm

/-- The policy finds out nothing by which it could tell the two nodes apart. -/
def Indistinct (s : Schema) (n : NodeId) (s' : Schema) (n' : NodeId) (p : Policy) : Prop :=
  p.excludesState = true → s.writable n = s'.writable n' ∧ s.DeclareAlike n s' n'

theorem Indistinct.symm (h : s.Indistinct n s' n' p) : s'.Indistinct n' s n p :=
  fun hp => ⟨(h hp).1.symm, DeclareAlike.symm (h hp).2⟩

section Built

variable (hw : s.Wired root) (hw' : s'.Wired root')
variable (hn : root ≤ n ∧ n < s.size) (hn' : root' ≤ n' ∧ n' < s'.size)
include hw hw' hn hn'

/-- Effective visibility is handed down the same way on both sides. -/
theorem SamePlace.writable_eq (h : SamePlace s n s' n' i i')
    (hroot : s.writable n = s'.writable n') (hd : s.DeclareAlike n s' n') :
    s.writable i = s'.writable i' := by
  induction h with
  | root => exact hroot
  | child h hc hc' ih =>
    obtain ⟨⟨hi, -⟩, hi', -⟩ := h.range_of_range hw hw' hn hn'
    rw [Schema.writable_eq s, Schema.writable_eq s', hd h hc hc',
      hw.child_parent hi (mem_children hc), hw'.child_parent hi' (mem_children hc'),
      Option.elim_some, Option.elim_some, ih]

namespace Congruent

theorem mirrors (h : s.Congruent n s' n') (hp : s.Indistinct n s' n' p)
    (hle : s.size ≤ s'.size) : s.Mirrors root s' id id p p (SamePlace s n s' n') where
  wired := hw
  size_le := hle
  inj := Function.injective_id
  side _ := rfl
  preferred := Option.map_id'.symm
  range hr := (hr.range_of_range hw hw' hn hn').1
  kind hr := (h.kind hr).symm
  admits {i i'} hr := by
    rw [Schema.admits, Schema.admits]
    cases hx : p.excludesState with
    | false => rfl
    | true => rw [hr.writable_eq hw hw' hn hn' (hp hx).1 (hp hx).2]
  children {i i'} hr := by
    obtain ⟨⟨hi, -⟩, hi', -⟩ := hr.range_of_range hw hw' hn hn'
    have hrel : Entries.Related (s.Counterparts s' id (SamePlace s n s' n'))
        (s.node i).children (s'.node i').children := fun {key c c'} hc hc' =>
      ⟨.child hr hc hc', by
        rw [← hw'.key_eq hi' (Entries.mem_of_get? hc'), ← hw.key_eq hi (Entries.mem_of_get? hc)]
        rfl⟩
    exact (Entries.forall₂_of_related (hw.nodup_keys hi) (h.keys hr) hrel).imp
      fun _ _ he => ⟨he.1.symm, he.2⟩

theorem mirrored_resolve (h : s.Congruent n s' n') (hp : s.Indistinct n s' n' p)
    (hr : SamePlace s n s' n' i i') :
    ChildSet.Mirrored s s' id (s.Counterparts s' id (SamePlace s n s' n')) (s.resolve p i)
      (s'.resolve p i') := by
  rcases Nat.le_total s.size s'.size with hle | hle
  · exact (h.mirrors hw hw' hn hn' hp hle).resolve hr
  · have hback := (h.symm.mirrors hw' hw hn' hn hp.symm hle).resolve hr.symm
    exact hback.flip fun x x' hx => ⟨hx.related.symm, hx.name.symm⟩

/-! ## Walks -/

theorem forall₂_entityChildren (h : s.Congruent n s' n') (hp : s.Indistinct n s' n' p)
    (hr : SamePlace s n s' n' i i') :
    List.Forall₂ (SamePlace s n s' n') (s.entityChildren p i) (s'.entityChildren p i') := by
  have hchildren := (h.mirrored_resolve hw hw' hn hn' hp hr).forall₂_orderedChildren
    (nodup_keys_resolve p i)
  refine forall₂_filter (hchildren.imp fun c c' hc => hc.related) fun c c' hcc => ?_
  rw [h.kind hcc]

theorem forall₂_entities (h : s.Congruent n s' n') (hp : s.Indistinct n s' n' p) :
    List.Forall₂ (SamePlace s n s' n') (s.entities p n) (s'.entities p n') :=
  hw.forall₂_entities hw' (fun hr => hr.range_of_range hw hw' hn hn') .root
    fun _ hr => h.forall₂_entityChildren hw hw' hn hn' hp hr

end Congruent

end Built

/-- Walks from congruent nodes that the policy cannot tell apart are alike, step by step. -/
theorem IsBuilt.walks_alike (h : s.IsBuilt root) (h' : s'.IsBuilt root')
    (hn : n ∈ s.subtree root) (hn' : n' ∈ s'.subtree root') (hc : s.Congruent n s' n')
    (hp : s.Indistinct n s' n' p) :
    List.Forall₂ (Visit.Mirrored s s' (SamePlace s n s' n')) ((Walk.start p n).visits s)
        ((Walk.start p n').visits s') ∧
      ∀ count, List.Forall₂ (Visit.Mirrored s s' (SamePlace s n s' n'))
        ((Walk.start p n).take s count).shown ((Walk.start p n').take s' count).shown := by
  have hw := h.wired
  have hw' := h'.wired
  have hrange := h.range_of_mem_subtree hn
  have hrange' := h'.range_of_mem_subtree hn'
  have hentities := hc.forall₂_entities hw hw' hrange hrange' hp
  have hvisits : ∀ {is is' : List NodeId}, List.Forall₂ (SamePlace s n s' n') is is' →
      List.Forall₂ (Visit.Mirrored s s' (SamePlace s n s' n')) (is.map (s.visit p))
        (is'.map (s'.visit p)) := fun his => by
    rw [List.forall₂_map_left_iff, List.forall₂_map_right_iff]
    exact his.imp fun i i' hr => ⟨hr, hc.mirrored_resolve hw hw' hrange hrange' hp hr⟩
  constructor
  · rw [hw.visits_eq p hrange.1 hrange.2, hw'.visits_eq p hrange'.1 hrange'.2]
    exact hvisits hentities
  · intro count
    rw [hw.take_eq count (Walk.within_start p hrange.1 hrange.2),
      hw'.take_eq count (Walk.within_start p hrange'.1 hrange'.2), Walk.remaining_start,
      Walk.remaining_start]
    exact hvisits (List.forall₂_take count hentities)

/-! ## Ports in a depot -/

/-- Subtrees whose nodes are numbered alike from `n` and from `n'` on are the same place by
place. -/
theorem SamePlace.exists_shift {size : Nat} (hpos : 0 < size)
    (hstep : ∀ k < size, ∀ e ∈ (s.node (n + k)).children, ∀ e' ∈ (s'.node (n' + k)).children,
      e.1 = e'.1 → ∃ j < size, e.2 = n + j ∧ e'.2 = n' + j)
    (h : SamePlace s n s' n' i i') : ∃ k < size, i = n + k ∧ i' = n' + k := by
  induction h with
  | root => exact ⟨0, hpos, rfl, rfl⟩
  | child _ hc hc' ih =>
    obtain ⟨k, hk, rfl, rfl⟩ := ih
    exact hstep k hk _ (Entries.mem_of_get? hc) _ (Entries.mem_of_get? hc') rfl

theorem congruent_of_shift {size : Nat}
    (hshift : ∀ {i i' : Nat}, SamePlace s n s' n' i i' → ∃ k < size, i = n + k ∧ i' = n' + k)
    (hsame : ∀ k < size, (s.node (n + k)).kind = (s'.node (n' + k)).kind ∧
      (s.node (n + k)).children.keys = (s'.node (n' + k)).children.keys) :
    s.Congruent n s' n' where
  kind hr := by
    obtain ⟨k, hk, rfl, rfl⟩ := hshift hr
    exact (hsame k hk).1
  keys hr := by
    obtain ⟨k, hk, rfl, rfl⟩ := hshift hr
    exact (hsame k hk).2

/-- The children of a port whose second side declares the given visibility. -/
def portChildren (applied : Value) : Value :=
  .map [
    ("config", .map [("children", .map [("name", .map []), ("mtu", .map [])])]),
    ("state", .map [("config", applied),
      ("children", .map [("name", .map []), ("up", .map [])])]),
    ("units", .map [("children", .map [("unit", .map [("kind", .str "list"),
      ("children", .map [("id", .map [])])])])])]

/-- A read-only depot with a port in a writable bay and, in the scrap, one that declares
nothing. -/
def depotDescription : Value :=
  .map [("config", .bool false), ("children", .map [
    ("bay", .map [("config", .bool true), ("children", .map [
      ("spare", .map [("children", portChildren (.bool false))])])]),
    ("scrap", .map [("children", .map [
      ("wreck", .map [("children", portChildren .null)])])])])]

def depotSchema : Schema :=
  ((empty.build depotDescription (some "depot") none).toOption).getD empty

theorem depotSchema_isBuilt : depotSchema.IsBuilt 0 :=
  ⟨empty, depotDescription, some "depot", none, nofun, rfl, rfl⟩

/-- The spare port is walked like the port on its own under every policy, the wreck under those
that do not look at visibility. -/
theorem walks_alike_depotSchema :
    portSchema.IsBuilt 0 ∧ depotSchema.IsBuilt 0 ∧ 0 ∈ portSchema.subtree 0 ∧
      (2 ∈ depotSchema.subtree 0 ∧ portSchema.Congruent 0 depotSchema 2 ∧
        portSchema.writable 0 = depotSchema.writable 2 ∧
        portSchema.DeclareAlike 0 depotSchema 2 ∧
        ∀ p, List.Forall₂ (Visit.Mirrored portSchema depotSchema
          (SamePlace portSchema 0 depotSchema 2)) ((Walk.start p 0).visits portSchema)
          ((Walk.start p 2).visits depotSchema)) ∧
      (13 ∈ depotSchema.subtree 0 ∧ portSchema.Congruent 0 depotSchema 13 ∧
        portSchema.writable 0 ≠ depotSchema.writable 13 ∧
        List.Forall₂ (Visit.Mirrored portSchema depotSchema
          (SamePlace portSchema 0 depotSchema 13))
          ((Walk.start .compressedPreferState 0).visits portSchema)
          ((Walk.start .compressedPreferState 13).visits depotSchema)) := by
  have hport : 0 ∈ portSchema.subtree 0 := by decide
  have hspare : 2 ∈ depotSchema.subtree 0 := by decide +kernel
  have hwreck : 13 ∈ depotSchema.subtree 0 := by decide +kernel
  have hshift : ∀ {i i' : Nat}, SamePlace portSchema 0 depotSchema 2 i i' →
      ∃ k < 10, i = 0 + k ∧ i' = 2 + k :=
    SamePlace.exists_shift (by decide) (by decide +kernel)
  have hshift' : ∀ {i i' : Nat}, SamePlace portSchema 0 depotSchema 13 i i' →
      ∃ k < 10, i = 0 + k ∧ i' = 13 + k :=
    SamePlace.exists_shift (by decide) (by decide +kernel)
  have hc := congruent_of_shift hshift (by decide +kernel)
  have hc' := congruent_of_shift hshift' (by decide +kernel)
  have hwritable : portSchema.writable 0 = depotSchema.writable 2 := by decide +kernel
  have hdeclared : ∀ k < 10, (portSchema.node (0 + k)).visibility =
      (depotSchema.node (2 + k)).visibility := by decide +kernel
  have hd : portSchema.DeclareAlike 0 depotSchema 2 := fun hr hi hi' => by
    obtain ⟨k, hk, rfl, rfl⟩ := hshift (.child hr hi hi')
    exact hdeclared k hk
  refine ⟨portSchema_isBuilt, depotSchema_isBuilt, hport,
    ⟨hspare, hc, hwritable, hd, fun p => ?_⟩, hwreck, hc', by decide +kernel, ?_⟩
  · exact (portSchema_isBuilt.walks_alike depotSchema_isBuilt hport hspare hc
      fun _ => ⟨hwritable, hd⟩).1
  · exact (portSchema_isBuilt.walks_alike depotSchema_isBuilt hport hwreck hc'
      fun hx => absurd hx (by decide)).1

end Schema

end DataTree
