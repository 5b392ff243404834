import DataTree.Proofs.Entities
import DataTree.Proofs.Exclusion

/-!
# What excluding state takes away

Two policies that compress alike, one of which excludes state, offer by the same routes, so what
the narrower one offers is offered by the other one, too (`Wired.candidates_subset`). A read-only
node that is left out may let another node of its name in, but it brings no name of its own: each
kept name is one that was offered, and what gives way gives way to its own name. Where all is
writable nothing is left out, and the two go through the same offers
(`IsBuilt.exclusion_only_removes`).
-/

namespace DataTree

/-- The policy that compresses like `p` and excludes state, for a `p` that includes it. -/
def Policy.excluding? : Policy → Option Policy
  | uncompressed => some uncompressedStateExcluded
  | compressedPreferConfig => some compressedStateExcluded
  | compressedPreferState | uncompressedStateExcluded | compressedStateExcluded => none

theorem Policy.of_excluding? {p p' : Policy} (h : p.excluding? = some p') :
    p'.preferred? = p.preferred? ∧ p.excludesState = false := by
  cases p <;> cases h <;> exact ⟨rfl, rfl⟩

namespace Schema

variable {s : Schema} {root n m : Nat} {p p' : Policy}

/-! ## Fewer candidates -/

theorem considered_congr (hpref : p'.preferred? = p.preferred?) (n : NodeId) :
    s.considered p' n = s.considered p n := by
  rw [considered, considered, hpref]

theorem elides_congr (hpref : p'.preferred? = p.preferred?) (m : NodeId) :
    s.elides p' m = s.elides p m := by
  rw [elides, elides, Policy.compresses, Policy.compresses, hpref]

theorem Route.of_admits (hpref : p'.preferred? = p.preferred?) (ha : ∀ i, s.admits p i = true)
    {x : Nat} (hr : s.Route p' n m x) : s.Route p n m x := by
  have hcomp : p'.compresses = p.compresses := by rw [Policy.compresses, Policy.compresses, hpref]
  rcases hr with ⟨he, hk, hx⟩ | ⟨hp, hs, hc, hx⟩ | ⟨hp, hs, hx, -⟩
  · exact .plain (elides_congr hpref m ▸ he) (hcomp ▸ hk) hx
  · exact .lifted (hcomp ▸ hp) hs hc hx
  · exact .sole (hcomp ▸ hp) hs hx (ha x)

theorem Wired.candidates_subset (h : s.Wired root) (hn : root ≤ n)
    (hpref : p'.preferred? = p.preferred?) (ha : ∀ i, s.admits p i = true) :
    s.candidates p' n ⊆ s.candidates p n := by
  intro x hx
  obtain ⟨m, hm, -, hr⟩ := (h.mem_candidates_iff hn).1 hx
  rw [considered_congr hpref] at hm
  exact (h.mem_candidates_iff hn).2 ⟨m, hm, ha m, hr.of_admits hpref ha⟩

/-- No name is found where state is excluded that is not found with it. -/
theorem Wired.keys_subset (h : s.Wired root) (hn : root ≤ n)
    (hpref : p'.preferred? = p.preferred?) (ha : ∀ i, s.admits p i = true) :
    (s.resolve p' n).children.keys ⊆ (s.resolve p n).children.keys := by
  intro name hname
  obtain ⟨x, hx⟩ : ∃ x, (name, x) ∈ (s.resolve p' n).children := by
    obtain ⟨entry, hmem, rfl⟩ := List.mem_map.1 hname
    exact ⟨entry.2, hmem⟩
  obtain ⟨hcand, hxn⟩ := mem_candidates_of_mem_resolve hx
  rw [resolve_children_eq, if_pos (ha n), mem_keys_firsts_iff]
  exact ⟨x, h.candidates_subset hn hpref ha hcand, hxn⟩

/-! ## The same offers -/

theorem compressedOffers_congr (side : Side)
    (ha : ∀ i, s.AtOrBelow m i → s.admits p' i = s.admits p i) :
    s.compressedOffers p' side n m = s.compressedOffers p side n m := by
  unfold compressedOffers
  rw [ha m (.inl rfl)]
  cases hx : s.soleList? m with
  | none => rfl
  | some x => simp only [ha x (.inr (below_child (mem_children_of_soleList? hx)))]

theorem childOffers_congr (hpref : p'.preferred? = p.preferred?)
    (ha : ∀ i, s.AtOrBelow m i → s.admits p' i = s.admits p i) :
    s.childOffers p' n m = s.childOffers p n m := by
  unfold childOffers
  rw [hpref, ha m (.inl rfl)]
  cases p.preferred? with
  | none => rfl
  | some side => exact compressedOffers_congr side ha

/-- Policies that compress alike and leave out the same at and below a node resolve it alike. -/
theorem Wired.resolve_congr (h : s.Wired root) (hn : root ≤ n)
    (hpref : p'.preferred? = p.preferred?)
    (ha : ∀ i, s.AtOrBelow n i → s.admits p' i = s.admits p i) :
    s.resolve p' n = s.resolve p n := by
  have hoffers : s.offers p' n = s.offers p n := by
    rw [offers_eq_flatMap, offers_eq_flatMap, considered_congr hpref]
    refine List.flatMap_congr fun m hm => childOffers_congr hpref fun i hi => ?_
    exact ha i (.inr ((below_child (h.mem_children_of_considered hn hm)).trans_at hi))
  rw [resolve, resolve, ha n (.inl rfl), hoffers]

/-- Excluding state removes names and adds none, and where all is writable it changes nothing. -/
theorem IsBuilt.exclusion_only_removes (h : s.IsBuilt root) (hn : n ∈ s.subtree root)
    (hp : p.excluding? = some p') :
    (s.resolve p' n).children.keys ⊆ (s.resolve p n).children.keys ∧
      ((∀ i ∈ s.subtree n, s.writable i = true) →
        s.resolve p' n = s.resolve p n ∧
          (Walk.start p' n).visits s = (Walk.start p n).visits s) := by
  have hw := h.wired
  obtain ⟨hle, hlt⟩ := h.range_of_mem_subtree hn
  obtain ⟨hpref, hincludes⟩ := Policy.of_excluding? hp
  have hall := admits_of_not_excludesState (s := s) hincludes
  refine ⟨hw.keys_subset hle hpref hall, fun hwritable => ?_⟩
  have hsame : ∀ i, s.AtOrBelow n i → s.admits p' i = s.admits p i := fun i hi => by
    rw [hall i, admits, hwritable i ((hw.mem_subtree_iff hle hlt).2 hi), Bool.or_true]
  refine ⟨hw.resolve_congr hle hpref hsame, hw.visits_congr hle hlt fun i hi => ?_⟩
  refine hw.resolve_congr (hw.root_le_below hle hi) hpref fun j hj => hsame j ?_
  rcases hj with rfl | hj
  · exact hi
  · exact .inr (hi.trans_below hj)

/-- Excluding state takes the name of a read-only leaf from the port, and nothing from the
container of its units. -/
theorem exclusion_only_removes_portSchema :
    portSchema.IsBuilt 0 ∧ 0 ∈ portSchema.subtree 0 ∧
      (portSchema.resolve .compressedStateExcluded 0).children.keys ⊆
        (portSchema.resolve .compressedPreferConfig 0).children.keys ∧
      some "up" ∈ (portSchema.resolve .compressedPreferConfig 0).children.keys ∧
      some "up" ∉ (portSchema.resolve .compressedStateExcluded 0).children.keys ∧
      7 ∈ portSchema.subtree 0 ∧ (∀ i ∈ portSchema.subtree 7, portSchema.writable i = true) ∧
      (Walk.start .compressedStateExcluded 7).visits portSchema =
        (Walk.start .compressedPreferConfig 7).visits portSchema := by
  have hport : 0 ∈ portSchema.subtree 0 := by decide
  have hunits : 7 ∈ portSchema.subtree 0 := by decide
  have hwritable : ∀ i ∈ portSchema.subtree 7, portSchema.writable i = true := by decide
  have hremoves := portSchema_isBuilt.exclusion_only_removes hport
    (p := .compressedPreferConfig) rfl
  have hidle := portSchema_isBuilt.exclusion_only_removes hunits
    (p := .compressedPreferConfig) rfl
  exact ⟨portSchema_isBuilt, hport, hremoves.1, by decide, by decide, hunits, hwritable,
    (hidle.2 hwritable).2⟩

end Schema

end DataTree
