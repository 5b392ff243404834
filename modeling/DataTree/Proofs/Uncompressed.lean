import DataTree.Proofs.Fates
import DataTree.Proofs.Preorder
import DataTree.Proofs.Repeats

/-!
# Walks without compression

Without compression a data node belongs to the nearest data node above it (`s.Holds n d`), and names
alone decide whether it is kept there. `s.Loser r d`: of the data nodes that belong to the same
node, an earlier one has the name of `d`.

Such a walk cuts off what is at or below a loser, and nothing else: a node is visited if no data
node above what belongs to it is a loser (`Wired.walked_iff_of_holds`). So each other data node is
kept where it belongs, and each loser that is not cut off itself is on record once
(`IsBuilt.uncompressed_complete`).
-/

namespace DataTree

namespace Schema

variable {s : Schema} {root r : Nat}

/-! ## Where a node belongs -/

/-- The nearest data node above `d` is `n`. -/
structure Holds (s : Schema) (n d : NodeId) : Prop where
  below : s.Below n d
  data : (s.node n).kind.isWrapper = false
  between : ∀ {e : Nat}, s.Below n e → s.Below e d → (s.node e).kind.isWrapper = true

/-- In the tree below `r`, an earlier data node of the same name belongs to the same node. An
earlier choice or case does no harm, since it takes no name. -/
structure Loser (s : Schema) (r d : NodeId) : Prop where
  below : s.Below r d
  data : (s.node d).kind.isWrapper = false
  outrun : ∃ e, [e, d].Sublist (s.subtree r) ∧ (s.node e).kind.isWrapper = false ∧
    (s.node e).name = (s.node d).name ∧ ∃ n, s.AtOrBelow r n ∧ s.Holds n e ∧ s.Holds n d

namespace Wired

theorem mem_members_iff_holds (h : s.Wired root) {n d : Nat} (hn : root ≤ n)
    (hw : (s.node n).kind.isWrapper = false) :
    d ∈ s.members n ↔ s.Holds n d ∧ (s.node d).kind.isWrapper = false := by
  rw [h.mem_members_iff hn]
  constructor
  · rintro ⟨c, hc, hx⟩
    refine ⟨⟨(below_child hc).trans_at hx.atOrBelow, hw, fun hne hed => ?_⟩, hx.data⟩
    obtain ⟨c', hc', he⟩ := hne.exists_child
    cases h.siblings_disjoint hn hc hc' hx.atOrBelow (.inr (he.trans_below hed))
    exact hx.between he hed
  · rintro ⟨hd, hdw⟩
    obtain ⟨c, hc, hcd⟩ := hd.below.exists_child
    exact ⟨c, hc, hcd, hdw, fun he hed => hd.between ((below_child hc).trans_at he) hed⟩

/-- Data nodes above a node are at or above the nearest one. -/
theorem atOrBelow_of_holds (h : s.Wired root) {n a d : Nat} (hn : root ≤ n) (ha : root ≤ a)
    (hd : s.Holds n d) (had : s.Below a d) (hw : (s.node a).kind.isWrapper = false) :
    s.AtOrBelow a n := by
  rcases h.comparable ha hn had hd.below with rfl | hb | hb
  · exact .inl rfl
  · exact .inr hb
  · have := hd.between hb had
    simp [hw] at this

theorem holds_unique (h : s.Wired root) {n n' d : Nat} (hn : root ≤ n) (hn' : root ≤ n')
    (hd : s.Holds n d) (hd' : s.Holds n' d) : n = n' := by
  have hle := h.below_le hn (h.atOrBelow_of_holds hn' hn hd' hd.below hd.data)
  have hle' := h.below_le hn' (h.atOrBelow_of_holds hn hn' hd hd'.below hd'.data)
  exact Nat.le_antisymm hle hle'

theorem exists_holds (h : s.Wired root) (hr : root ≤ r)
    (hrw : (s.node r).kind.isWrapper = false) {d : Nat} (hd : s.Below r d)
    (hdw : (s.node d).kind.isWrapper = false) : ∃ n : Nat, s.AtOrBelow r n ∧ s.Holds n d := by
  obtain ⟨n, hn, hnw, m, hm, hmd, hbetween⟩ := h.exists_holder hr hrw hd
  have hrn := h.root_le_below hr hn
  have hmem := (h.mem_members_iff hrn).2 ⟨m, hm, hmd, hdw, hbetween⟩
  exact ⟨n, hn, ((h.mem_members_iff_holds hrn hnw).1 hmem).1⟩

/-! ## Losers -/

/-- Losing is decided among the nodes that belong to the same node. -/
theorem loser_iff_outrun (h : s.Wired root) (hr : root ≤ r) (hlt : r < s.size) {n d : Nat}
    (hrn : s.AtOrBelow r n) (hd : s.Holds n d) (hdw : (s.node d).kind.isWrapper = false) :
    s.Loser r d ↔ s.Outrun (s.members n) d := by
  have hn := h.root_le_below hr hrn
  have hmem := fun {x : Nat} => h.mem_members_iff_holds (d := x) hn hd.data
  have hsub : (s.members n).Sublist (s.subtree r) :=
    (h.members_sublist_subtree hn hd.below.lt_size).trans
      (h.subtree_sublist_subtree hr hlt hrn)
  constructor
  · rintro ⟨-, -, e, hs, hew, hname, n', hrn', he, hd'⟩
    cases h.holds_unique hn (h.root_le_below hr hrn') hd hd'
    refine ⟨e, ?_, hname⟩
    exact pair_sublist_of_sublist hsub (h.nodup_subtree hr hlt) hs (hmem.2 ⟨he, hew⟩)
      (hmem.2 ⟨hd, hdw⟩)
  · rintro ⟨e, hs, hname⟩
    obtain ⟨he, hew⟩ := hmem.1 (hs.subset List.mem_cons_self)
    exact ⟨hrn.trans_below hd.below, hdw, e, hs.trans hsub, hew, hname, n, hrn, he, hd⟩

end Wired

/-! ## One node -/

theorem Walked.data {p : Policy} {n : Nat} (hn : s.Walked p r n)
    (hk : (s.node r).kind.isEntity = true) : (s.node n).kind.isWrapper = false :=
  Kind.isWrapper_of_isEntity (hn.isEntity_of_root hk)

theorem offers_uncompressed (n : NodeId) :
    s.offers .uncompressed n = (s.members n).map .plain := by
  have hall : (s.children n).filter (s.admits .uncompressed) = s.children n :=
    List.filter_eq_self.2 fun _ _ => rfl
  show ((s.children n).filter (s.admits .uncompressed)).flatMap s.plainOffers = _
  rw [hall, members, List.map_flatMap]
  rfl

theorem resolve_uncompressed (n : NodeId) :
    s.resolve .uncompressed n = .ofOffers s ((s.members n).map .plain) := by
  rw [← offers_uncompressed]
  exact if_pos rfl

theorem candidates_uncompressed (n : NodeId) : s.candidates .uncompressed n = s.members n := by
  rw [candidates, offers_uncompressed, List.filterMap_map]
  exact List.filterMap_some

theorem defects_uncompressed (n : NodeId) : (s.resolve .uncompressed n).defects =
    (s.repeats [] (s.members n)).map (Collector.duplicate s) := by
  rw [resolve_uncompressed, ChildSet.defects_ofOffers_plain]

theorem values_uncompressed (n : NodeId) :
    (s.resolve .uncompressed n).children.values = (s.firsts (s.members n)).values := by
  rw [resolve_children_eq, candidates_uncompressed]
  exact congrArg Entries.values (if_pos rfl)

namespace Wired

/-- A node keeps what belongs to it, losers apart. -/
theorem mem_values_uncompressed_iff (h : s.Wired root) (hr : root ≤ r) (hlt : r < s.size)
    {n d : Nat} (hrn : s.AtOrBelow r n) (hw : (s.node n).kind.isWrapper = false) :
    d ∈ (s.resolve .uncompressed n).children.values ↔
      s.Holds n d ∧ (s.node d).kind.isWrapper = false ∧ ¬ s.Loser r d := by
  have hn := h.root_le_below hr hrn
  rw [values_uncompressed, mem_values_firsts_iff (h.nodup_members hn),
    h.mem_members_iff_holds hn hw, and_assoc]
  refine and_congr_right fun hd => and_congr_right fun hdw => ?_
  rw [h.loser_iff_outrun hr hlt hrn hd hdw]

/-- A node puts the losers among what belongs to it on record. -/
theorem mem_repeats_members_iff (h : s.Wired root) (hr : root ≤ r) (hlt : r < s.size)
    {n d : Nat} (hrn : s.AtOrBelow r n) (hw : (s.node n).kind.isWrapper = false) :
    d ∈ s.repeats [] (s.members n) ↔ s.Holds n d ∧ s.Loser r d := by
  have hn := h.root_le_below hr hrn
  rw [mem_repeats_iff (h.nodup_members hn)]
  constructor
  · intro ho
    obtain ⟨hd, hdw⟩ := (h.mem_members_iff_holds hn hw).1 ho.mem
    exact ⟨hd, (h.loser_iff_outrun hr hlt hrn hd hdw).2 ho⟩
  · rintro ⟨hd, hl⟩
    exact (h.loser_iff_outrun hr hlt hrn hd hl.data).1 hl

/-! ## The whole walk -/

/-- A node to which another one belongs is visited if no data node above that one loses. -/
theorem walked_iff_of_holds (h : s.Wired root) (hr : root ≤ r) (hlt : r < s.size)
    (hk : (s.node r).kind.isEntity = true) {n d : Nat} (hrn : s.AtOrBelow r n)
    (hd : s.Holds n d) :
    s.Walked .uncompressed r n ↔ ∀ a, s.Below a d → ¬ s.Loser r a := by
  have hrw := Kind.isWrapper_of_isEntity hk
  induction n using Nat.strongRecOn generalizing d with
  | ind n ih =>
    have hn := h.root_le_below hr hrn
    rcases hrn with rfl | hrn
    · refine iff_of_true .root fun a had hl => ?_
      have := hd.between hl.below had
      simp [hl.data] at this
    obtain ⟨q, hrq, hq⟩ := h.exists_holds hr hrw hrn hd.data
    have hrootq := h.root_le_below hr hrq
    -- the data nodes above `d` are `n` and those above `n`
    have habove : (∀ a, s.Below a d → ¬ s.Loser r a) ↔
        ¬ s.Loser r n ∧ ∀ a, s.Below a n → ¬ s.Loser r a := by
      constructor
      · exact fun hall => ⟨hall n hd.below, fun a ha => hall a (ha.trans hd.below)⟩
      · rintro ⟨hnl, hall⟩ a had hl
        have hra := h.root_le_below hr (.inr hl.below)
        rcases h.atOrBelow_of_holds hn hra hd had hl.data with rfl | ha
        · exact hnl hl
        · exact hall a ha hl
    have hwq : s.Walked .uncompressed r q ↔ ∀ a, s.Below a n → ¬ s.Loser r a :=
      ih q (h.below_lt hrootq hq.below).1 hrq hq
    rw [habove, ← hwq]
    constructor
    · intro hw
      rcases hw.eq_or_exists with rfl | ⟨e, he, hc⟩
      · exact (h.below_ne hr hrn rfl).elim
      have hew := he.data hk
      obtain ⟨heq, -, hnl⟩ := (h.mem_values_uncompressed_iff hr hlt (he.atOrBelow h hr) hew).1
        (mem_entityChildren_iff.1 hc).1
      cases h.holds_unique (he.root_le h hr) hrootq heq hq
      exact ⟨hnl, he⟩
    · rintro ⟨hnl, hw⟩
      obtain ⟨c, hc, -⟩ := hd.below.exists_child
      have hv := (h.mem_values_uncompressed_iff hr hlt hrq hq.data).2 ⟨hq, hd.data, hnl⟩
      exact hw.step (mem_entityChildren_iff.2 ⟨hv, h.isEntity_of_mem_children hn hd.data hc⟩)

/-- What is shown is neither a loser nor below one. -/
theorem shown_iff (h : s.Wired root) (hr : root ≤ r) (hlt : r < s.size)
    (hk : (s.node r).kind.isEntity = true) {d : Nat} (hd : s.Below r d)
    (hw : (s.node d).kind.isWrapper = false) :
    (∃ n : Nat, s.Walked .uncompressed r n ∧ d ∈ (s.resolve .uncompressed n).children.values) ↔
      ∀ a, s.AtOrBelow a d → ¬ s.Loser r a := by
  constructor
  · rintro ⟨n, hn, hv⟩ a had
    have hrn := hn.atOrBelow h hr
    obtain ⟨hnd, -, hl⟩ :=
      (h.mem_values_uncompressed_iff hr hlt hrn (hn.data hk)).1 hv
    rcases had with rfl | had
    · exact hl
    · exact (h.walked_iff_of_holds hr hlt hk hrn hnd).1 hn a had
  · intro hall
    obtain ⟨n, hrn, hnd⟩ := h.exists_holds hr (Kind.isWrapper_of_isEntity hk) hd hw
    refine ⟨n, (h.walked_iff_of_holds hr hlt hk hrn hnd).2 fun a ha => hall a (.inr ha), ?_⟩
    exact (h.mem_values_uncompressed_iff hr hlt hrn hnd.data).2 ⟨hnd, hw, hall d (.inl rfl)⟩

/-- The losers that a walk comes upon, in its order. -/
theorem mem_losers_iff (h : s.Wired root) (hr : root ≤ r) (hlt : r < s.size)
    (hk : (s.node r).kind.isEntity = true) {d : Nat} :
    d ∈ (s.entities .uncompressed r).flatMap (fun n => s.repeats [] (s.members n)) ↔
      s.Loser r d ∧ ∀ a, s.Below a d → ¬ s.Loser r a := by
  rw [List.mem_flatMap]
  constructor
  · rintro ⟨n, hn, hd⟩
    have hn := (h.mem_entities_iff hr hlt).1 hn
    have hrn := hn.atOrBelow h hr
    obtain ⟨hnd, hl⟩ := (h.mem_repeats_members_iff hr hlt hrn (hn.data hk)).1 hd
    exact ⟨hl, (h.walked_iff_of_holds hr hlt hk hrn hnd).1 hn⟩
  · rintro ⟨hl, hall⟩
    obtain ⟨n, hrn, hnd⟩ := h.exists_holds hr (Kind.isWrapper_of_isEntity hk) hl.below hl.data
    have hn := (h.walked_iff_of_holds hr hlt hk hrn hnd).2 hall
    exact ⟨n, (h.mem_entities_iff hr hlt).2 hn,
      (h.mem_repeats_members_iff hr hlt hrn hnd.data).2 ⟨hnd, hl⟩⟩

theorem nodup_losers (h : s.Wired root) (hr : root ≤ r) (hlt : r < s.size) :
    ((s.entities .uncompressed r).flatMap fun n => s.repeats [] (s.members n)).Nodup := by
  have hwalk := fun {n : Nat} => h.mem_entities_iff (p := .uncompressed) (i := n) hr hlt
  rw [List.nodup_flatMap]
  refine ⟨fun n hn => ?_, (h.nodup_entities .uncompressed hr hlt).imp_of_mem ?_⟩
  · have hrn := (hwalk.1 hn).root_le h hr
    exact (h.nodup_members hrn).sublist (repeats_sublist [] _)
  · intro n n' hn hn' hne d hd hd'
    have hoff := (repeats_sublist [] _).subset hd
    have hoff' := (repeats_sublist [] _).subset hd'
    rw [← candidates_uncompressed] at hoff hoff'
    exact hne (h.offered_once hr (hwalk.1 hn) (hwalk.1 hn') hoff hoff')

theorem defects_visits_uncompressed (h : s.Wired root) (hr : root ≤ r) (hlt : r < s.size) :
    Plan.defects ((Walk.start .uncompressed r).visits s) =
      ((s.entities .uncompressed r).flatMap fun n => s.repeats [] (s.members n)).map
        (Collector.duplicate s) := by
  rw [h.visits_eq _ hr hlt, Plan.defects, List.flatMap_map, List.map_flatMap]
  exact List.flatMap_congr fun n _ => defects_uncompressed n

end Wired

/-- What a walk from `r` without compression shows. -/
structure Complete (s : Schema) (r : NodeId) (visits : List Visit) : Prop where
  shown_iff : ∀ d, s.Below r d → (s.node d).kind.isWrapper = false →
    ((∃ v ∈ visits, d ∈ v.resolved.children.values) ↔
      ∀ a, s.AtOrBelow a d → ¬ s.Loser r a)
  place : ∀ v ∈ visits, ∀ {key : Name} {d : NodeId}, (key, d) ∈ v.resolved.children →
    s.Holds v.node d ∧ key = (s.node d).name
  record : ∃ losers : List NodeId, losers.Nodup ∧
    (∀ d, d ∈ losers ↔ s.Loser r d ∧ ∀ a, s.Below a d → ¬ s.Loser r a) ∧
    Plan.defects visits = losers.map (Collector.duplicate s)

/-- Without compression a walk is complete, and exact where names clash. -/
theorem IsBuilt.uncompressed_complete (h : s.IsBuilt root) (hr : r ∈ s.subtree root)
    (hk : (s.node r).kind.isEntity = true) :
    s.Complete r ((Walk.start .uncompressed r).visits s) := by
  have hw := h.wired
  obtain ⟨hle, hlt⟩ := h.range_of_mem_subtree hr
  refine ⟨fun d hd hdw => ?shown, ?place, ?record⟩
  case shown =>
    rw [hw.exists_visit_iff hle hlt]
    exact hw.shown_iff hle hlt hk hd hdw
  case place =>
    intro v hv key d hd
    obtain ⟨n, hn, rfl⟩ := (hw.mem_visits_iff hle hlt).1 hv
    have hv := Entries.mem_values_of_mem hd
    obtain ⟨hnd, -, -⟩ := (hw.mem_values_uncompressed_iff hle hlt (hn.atOrBelow hw hle)
      (hn.data hk)).1 hv
    exact ⟨hnd, (mem_candidates_of_mem_resolve hd).2.symm⟩
  case record =>
    exact ⟨_, hw.nodup_losers hle hlt, fun d => hw.mem_losers_iff hle hlt hk,
      hw.defects_visits_uncompressed hle hlt⟩

/-- A bay and a box, each with a choice of a name that is gone. The one in the bay has a clash of
its own below it. -/
def bayDescription : Value :=
  .map [("children", .map [
    ("slot", .map []),
    ("pick", .map [("kind", .str "choice"), ("children", .map [
      ("slot", .map [("children", .map [("id", .map []),
        ("alt", .map [("kind", .str "choice"), ("children", .map [("id", .map [])])])])]),
      ("spare", .map [])])]),
    ("box", .map [("children", .map [("id", .map []),
      ("alt", .map [("kind", .str "choice"), ("children", .map [("id", .map [])])])])])])]

def baySchema : Schema :=
  ((empty.build bayDescription (some "bay") none).toOption).getD empty

theorem baySchema_isBuilt : baySchema.IsBuilt 0 :=
  ⟨empty, bayDescription, some "bay", none, nofun, rfl, rfl⟩

theorem uncompressed_complete_baySchema :
    baySchema.IsBuilt 0 ∧ 0 ∈ baySchema.subtree 0 ∧ (baySchema.node 0).kind.isEntity = true ∧
      baySchema.Complete 0 ((Walk.start .uncompressed 0).visits baySchema) := by
  have hr : 0 ∈ baySchema.subtree 0 := by decide
  have hk : (baySchema.node 0).kind.isEntity = true := by decide
  exact ⟨baySchema_isBuilt, hr, hk, baySchema_isBuilt.uncompressed_complete hr hk⟩

/-- The clash below a loser is not on record. -/
example : Plan.defects ((Walk.start .uncompressed 0).visits baySchema) =
    [⟨.duplicate, "/bay/pick/slot", some "slot"⟩, ⟨.duplicate, "/bay/box/alt/id", some "id"⟩] := by
  cbv

/-- A choice of the name of the one leaf in it. -/
def aliasDescription : Value :=
  .map [("children", .map [("speed", .map [("kind", .str "choice"),
    ("children", .map [("speed", .map [])])])])]

def aliasSchema : Schema :=
  ((empty.build aliasDescription (some "root") none).toOption).getD empty

theorem aliasSchema_isBuilt : aliasSchema.IsBuilt 0 :=
  ⟨empty, aliasDescription, some "root", none, nofun, rfl, rfl⟩

/-- A node is shown although an earlier one, a wrapper, has its name and belongs to the same
node. -/
theorem shown_after_wrapper_of_same_name :
    ¬ ∀ (s : Schema) (root r d e n : NodeId), s.IsBuilt root → r ∈ s.subtree root →
      (s.node r).kind.isEntity = true → s.Below r d → (s.node d).kind.isWrapper = false →
      [e, d].Sublist (s.subtree r) → (s.node e).name = (s.node d).name →
      s.Holds n e → s.Holds n d →
      ∀ v ∈ (Walk.start .uncompressed r).visits s, d ∉ v.resolved.children.values := by
  intro hall
  have hw := aliasSchema_isBuilt.wired
  have hchoice : 1 ∈ aliasSchema.children 0 := by decide
  have hleaf : 2 ∈ aliasSchema.members 0 := by decide
  have hheld : aliasSchema.Holds 0 2 :=
    ((hw.mem_members_iff_holds (Nat.le_refl 0) (by decide)).1 hleaf).1
  have hfirst : aliasSchema.Holds 0 1 := by
    refine ⟨below_child hchoice, by decide, fun {e} he hed => ?_⟩
    -- nothing fits between a node and the next one
    have := (hw.below_lt (Nat.le_refl 0) he).1
    have := (hw.below_lt (Nat.zero_le e) hed).1
    omega
  have hvisit : ⟨0, aliasSchema.resolve .uncompressed 0⟩ ∈
      (Walk.start .uncompressed 0).visits aliasSchema :=
    (hw.mem_visits_iff (Nat.le_refl 0) (by decide)).2 ⟨0, .root, rfl⟩
  have hgone := hall aliasSchema 0 0 2 1 0 aliasSchema_isBuilt (by decide) (by decide)
    hheld.below (by decide) (by decide) (by decide) hfirst hheld _ hvisit
  exact hgone (by decide)

end Schema

end DataTree
