import DataTree.Proofs.Entities

/-!
# Who owns a node

In a walk every node is a resolved child of at most one visited node, under one key, and no node is
visited twice (`IsBuilt.owned_once`). With compression a node is offered what lies deeper than its
children, so two visited nodes look into the same part of the tree. But whatever lies between them
and a common offer was elided by its parent, and what is elided by a visited parent is not visited
(`Wired.not_elides_of_walked`).
-/

namespace DataTree.Schema

variable {s : Schema} {root r : Nat} {p : Policy}

theorem Walked.isEntity {i : Nat} (hi : s.Walked p r i) (hne : i ≠ r) :
    (s.node i).kind.isEntity = true := by
  rcases hi.eq_or_exists with e | ⟨e, -, hc⟩
  · exact (hne e).elim
  · exact (mem_entityChildren_iff.1 hc).2

theorem Walked.isEntity_of_root {i : Nat} (hi : s.Walked p r i)
    (hk : (s.node r).kind.isEntity = true) : (s.node i).kind.isEntity = true := by
  by_cases e : i = r
  · rwa [e]
  · exact hi.isEntity e

namespace Wired

/-- Strictly below another visited node, a visited node is a data node. -/
theorem data_of_walked (h : s.Wired root) (hr : root ≤ r) {a i : Nat} (ha : s.Walked p r a)
    (hi : s.Walked p r i) (hai : s.Below a i) : (s.node i).kind.isWrapper = false := by
  refine Kind.isWrapper_of_isEntity (hi.isEntity ?_)
  rintro rfl
  exact h.below_ne hr ((ha.atOrBelow h hr).trans_below hai) rfl

/-- What lies between a visited node and one of its offers is not visited, if the parent is not
elided there. This is the step up the tree. -/
theorem elides_of_between (h : s.Wired root) (hr : root ≤ r) {n e x : Nat} (hn : s.Walked p r n)
    (he : s.Walked p r e) (hx : x ∈ s.candidates p n) (hne : s.Below n e) (hex : s.Below e x) :
    e ∈ s.children n ∧ s.elides p e = true := by
  have hrn := hn.root_le h hr
  obtain ⟨m, hm, -, hroute⟩ := (h.mem_candidates_iff hrn).1 hx
  have hm := h.mem_children_of_considered hrn hm
  obtain ⟨rfl, hel⟩ := hroute.elided_of_between h hrn hm hne hex (h.data_of_walked hr hn he hne)
  exact ⟨hm, hel⟩

/-- A visited node that is a child of a visited node is not elided. -/
theorem not_elides_of_walked (h : s.Wired root) (hr : root ≤ r) {q e : Nat}
    (hq : s.Walked p r q) (he : s.Walked p r e) (hm : e ∈ s.children q) :
    s.elides p e = false := by
  induction e using Nat.strongRecOn generalizing q with
  | ind e ih =>
    have hrq := hq.root_le h hr
    have hqe := h.lt_child hrq hm
    obtain rfl | ⟨n, hn, hc⟩ := he.eq_or_exists
    · have := h.below_le hr (hq.atOrBelow h hr)
      omega
    have hrn := hn.root_le h hr
    have hoff := mem_candidates_of_mem_entityChildren hc
    rcases h.above_child hrn hrq hm (h.below_of_mem_candidates hrn hoff) with rfl | hnq
    · cases hel : s.elides p e with
      | false => rfl
      | true => exact (h.not_mem_candidates_of_elides hrn hm hel hoff).elim
    · -- the parent lies in between, so it was elided by its own parent
      obtain ⟨hqn, hel⟩ := h.elides_of_between hr hn hq hoff hnq (below_child hm)
      have := ih q hqe hn hq hqn
      simp [this] at hel

theorem not_between_of_walked (h : s.Wired root) (hr : root ≤ r) {n e x : Nat}
    (hn : s.Walked p r n) (he : s.Walked p r e) (hx : x ∈ s.candidates p n)
    (hne : s.Below n e) : ¬ s.Below e x := by
  intro hex
  obtain ⟨hm, hel⟩ := h.elides_of_between hr hn he hx hne hex
  simp [h.not_elides_of_walked hr hn he hm] at hel

/-- A node is offered to one visited node at most. -/
theorem offered_once (h : s.Wired root) (hr : root ≤ r) {n n' x : Nat} (hn : s.Walked p r n)
    (hn' : s.Walked p r n') (hx : x ∈ s.candidates p n) (hx' : x ∈ s.candidates p n') :
    n = n' := by
  have hrn := hn.root_le h hr
  have hrn' := hn'.root_le h hr
  have hb := h.below_of_mem_candidates hrn hx
  have hb' := h.below_of_mem_candidates hrn' hx'
  rcases h.comparable hrn hrn' hb hb' with e | hnn | hnn
  · exact e
  · exact (h.not_between_of_walked hr hn hn' hx hnn hb').elim
  · exact (h.not_between_of_walked hr hn' hn hx' hnn hb).elim

/-- A child of a visited node is offered to no other visited node. -/
theorem eq_parent_of_offered (h : s.Wired root) (hr : root ≤ r) {q n x : Nat}
    (hq : s.Walked p r q) (hn : s.Walked p r n) (hm : x ∈ s.children q)
    (hx : x ∈ s.candidates p n) : n = q := by
  have hrq := hq.root_le h hr
  have hrn := hn.root_le h hr
  rcases h.above_child hrn hrq hm (h.below_of_mem_candidates hrn hx) with e | hnq
  · exact e.symm
  · exact (h.not_between_of_walked hr hn hq hx hnq (below_child hm)).elim

/-! ## No node is visited twice -/

/-- Of two walks that come to the same node, one goes through the root of the other. -/
theorem walked_or_walked (h : s.Wired root) (hr : root ≤ r) {a b i : Nat} (ha : s.Walked p r a)
    (hb : s.Walked p r b) (hai : s.Walked p a i) (hbi : s.Walked p b i) :
    s.Walked p a b ∨ s.Walked p b a := by
  induction hai with
  | root => exact .inr hbi
  | step hae hc ih =>
    obtain rfl | ⟨e, hbe, hc'⟩ := hbi.eq_or_exists
    · exact .inl (.step hae hc)
    · have hoff := mem_candidates_of_mem_entityChildren hc
      have hoff' := mem_candidates_of_mem_entityChildren hc'
      cases h.offered_once hr (ha.trans hae) (hb.trans hbe) hoff hoff'
      exact ih hbe

/-- A visited node does not come up again below a sibling. -/
theorem eq_of_walked_sibling (h : s.Wired root) (hr : root ≤ r) {a b : Nat}
    (ha : a ∈ s.entityChildren p r) (hb : b ∈ s.entityChildren p r) (hab : s.Walked p a b) :
    a = b := by
  have hra := h.below_of_mem_entityChildren hr ha
  obtain rfl | ⟨e, he, hc⟩ := hab.eq_or_exists
  · rfl
  have hoff := mem_candidates_of_mem_entityChildren hb
  have hoff' := mem_candidates_of_mem_entityChildren hc
  cases h.offered_once hr .root ((Walked.step .root ha).trans he) hoff hoff'
  have hat := he.atOrBelow h (h.root_le_below hr (.inr hra))
  exact (h.below_ne hr (hra.trans_at hat) rfl).elim

theorem nodup_entities (h : s.Wired root) (p : Policy) (hr : root ≤ r) (hlt : r < s.size) :
    (s.entities p r).Nodup := by
  induction r, hr, hlt using h.induction_down with
  | step r hr hlt ih =>
    rw [h.entities_eq hr hlt, List.nodup_cons, List.nodup_flatMap]
    have hwalk : ∀ {a i : Nat}, a ∈ s.entityChildren p r → i ∈ s.entities p a →
        s.Walked p a i := fun ha hi => by
      have hb := h.below_of_mem_entityChildren hr ha
      exact (h.mem_entities_iff (h.root_le_below hr (.inr hb)) (h.below_lt hr hb).2).1 hi
    refine ⟨fun hmem => ?_, fun a ha => ih a (h.below_of_mem_entityChildren hr ha), ?_⟩
    · obtain ⟨a, ha, hi⟩ := List.mem_flatMap.1 hmem
      have hra := h.below_of_mem_entityChildren hr ha
      have hat := (hwalk ha hi).atOrBelow h (h.root_le_below hr (.inr hra))
      exact h.below_ne hr (hra.trans_at hat) rfl
    · refine (nodup_entityChildren p r).imp_of_mem fun {a b} ha hb hne => ?_
      intro i hia hib
      rcases h.walked_or_walked hr (.step .root ha) (.step .root hb) (hwalk ha hia)
        (hwalk hb hib) with hab | hba
      · exact hne (h.eq_of_walked_sibling hr ha hb hab)
      · exact hne (h.eq_of_walked_sibling hr hb ha hba).symm

end Wired

/-! ## Owners of built trees -/

/-- What a walk from `r` shows, seen as a relation of owners to what they own. -/
structure OwnedOnce (r : NodeId) (visits : List Visit) : Prop where
  nodup : (visits.map Visit.node).Nodup
  nodup_values : ∀ v ∈ visits, v.resolved.children.values.Nodup
  one_owner : ∀ u ∈ visits, ∀ v ∈ visits, ∀ {key key' : Name} {d : NodeId},
    (key, d) ∈ u.resolved.children → (key', d) ∈ v.resolved.children → u = v ∧ key = key'
  owned : ∀ v ∈ visits, v.node ≠ r → ∃! u, u ∈ visits ∧ v.node ∈ u.resolved.children.values

/-- Every node of a built tree may be the root of the walk, whatever its kind. -/
theorem IsBuilt.owned_once (h : s.IsBuilt root) (hr : r ∈ s.subtree root) (p : Policy) :
    OwnedOnce r ((Walk.start p r).visits s) := by
  have hw := h.wired
  obtain ⟨hle, hlt⟩ := h.range_of_mem_subtree hr
  have hmem : ∀ {v : Visit}, v ∈ (Walk.start p r).visits s ↔
      ∃ i, s.Walked p r i ∧ s.visit p i = v := hw.mem_visits_iff hle hlt
  have hone : ∀ u ∈ (Walk.start p r).visits s, ∀ v ∈ (Walk.start p r).visits s, ∀ {d},
      d ∈ u.resolved.children.values → d ∈ v.resolved.children.values → u = v := by
    intro u hu v hv d hd hd'
    obtain ⟨n, hn, rfl⟩ := hmem.1 hu
    obtain ⟨n', hn', rfl⟩ := hmem.1 hv
    cases hw.offered_once hle hn hn' (mem_candidates_of_mem_values hd)
      (mem_candidates_of_mem_values hd')
    rfl
  refine ⟨?nodup, ?nodup_values, ?one_owner, ?owned⟩
  case nodup =>
    rw [hw.visits_eq p hle hlt, List.map_map]
    exact (List.map_id _).symm ▸ hw.nodup_entities p hle hlt
  case nodup_values =>
    intro v hv
    obtain ⟨n, -, rfl⟩ := hmem.1 hv
    exact nodup_values p n
  case one_owner =>
    intro u hu v hv key key' d hd hd'
    cases hone u hu v hv (Entries.mem_values_of_mem hd) (Entries.mem_values_of_mem hd')
    obtain ⟨n, -, rfl⟩ := hmem.1 hu
    refine ⟨rfl, ?_⟩
    rw [← (mem_candidates_of_mem_resolve hd).2, (mem_candidates_of_mem_resolve hd').2]
  case owned =>
    intro v hv hne
    obtain ⟨i, hi, rfl⟩ := hmem.1 hv
    obtain e | ⟨n, hn, hc⟩ := hi.eq_or_exists
    · exact (hne e).elim
    have hm := (mem_entityChildren_iff.1 hc).1
    have hn := hmem.2 ⟨n, hn, rfl⟩
    exact ⟨s.visit p n, ⟨hn, hm⟩, fun u hu => hone u hu.1 _ hn hu.2 hm⟩

theorem owned_once_portSchema :
    portSchema.IsBuilt 0 ∧ 0 ∈ portSchema.subtree 0 ∧
      OwnedOnce 0 ((Walk.start .compressedPreferConfig 0).visits portSchema) := by
  have hr : 0 ∈ portSchema.subtree 0 := by decide
  exact ⟨portSchema_isBuilt, hr, portSchema_isBuilt.owned_once hr .compressedPreferConfig⟩

/-- The container of the list is not visited. -/
example : ((Walk.start .compressedPreferConfig 0).visits portSchema).map Visit.node = [0, 8] := by
  cbv

end DataTree.Schema
