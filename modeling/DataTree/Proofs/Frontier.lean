import DataTree.Proofs.Wiring

/-!
# Frontiers

`s.Exposes i x`: the data node `x` is at or below `i`, with only wrappers above it up to `i`. The
frontier of a node lists just these, each once (`Wired.mem_frontier_iff`, `Wired.nodup_frontier`).
-/

namespace DataTree.Schema

/-- The data nodes that the children of `i` stand for. -/
def members (s : Schema) (i : NodeId) : List NodeId :=
  (s.children i).flatMap s.frontier

structure Exposes (s : Schema) (i x : Nat) : Prop where
  atOrBelow : s.AtOrBelow i x
  data : (s.node x).kind.isWrapper = false
  between : ∀ {e : Nat}, s.AtOrBelow i e → s.Below e x → (s.node e).kind.isWrapper = true

variable {s : Schema} {root : Nat}

theorem frontierWithin_congr {d d' i : Nat}
    (hj : ∀ j, s.Below i j → s.frontierWithin d j = s.frontierWithin d' j) :
    s.frontierWithin (d + 1) i = s.frontierWithin (d' + 1) i := by
  rw [frontierWithin, frontierWithin]
  split
  · exact List.flatMap_congr fun c hc => hj c (below_child hc)
  · rfl

theorem Exposes.eq_of_data {i x : Nat} (hx : s.Exposes i x)
    (hw : (s.node i).kind.isWrapper = false) : x = i := by
  rcases hx.atOrBelow with rfl | hb
  · rfl
  · simp [hx.between (.inl rfl) hb] at hw

namespace Wired

theorem exposes_self (h : s.Wired root) {i : Nat} (hi : root ≤ i)
    (hw : (s.node i).kind.isWrapper = false) : s.Exposes i i where
  atOrBelow := .inl rfl
  data := hw
  between he hei := by
    have := h.below_le hi he
    have := (h.below_lt (h.root_le_below hi he) hei).1
    omega

theorem exposes_iff_of_wrapper (h : s.Wired root) {i x : Nat} (hi : root ≤ i)
    (hw : (s.node i).kind.isWrapper = true) :
    s.Exposes i x ↔ ∃ c ∈ s.children i, s.Exposes c x := by
  constructor
  · rintro ⟨rfl | hx, hd, hbetween⟩
    · simp [hw] at hd
    obtain ⟨c, hc, hcx⟩ := hx.exists_child
    exact ⟨c, hc, hcx, hd, fun he => hbetween (.inr ((below_child hc).trans_at he))⟩
  · rintro ⟨c, hc, hx⟩
    refine ⟨.inr ((below_child hc).trans_at hx.atOrBelow), hx.data, fun he hex => ?_⟩
    rcases he with rfl | he
    · exact hw
    obtain ⟨c', hc', he'⟩ := he.exists_child
    -- only one child has `x` at or below it
    cases h.siblings_disjoint hi hc hc' hx.atOrBelow (.inr (he'.trans_below hex))
    exact hx.between he' hex

theorem frontier_eq (h : s.Wired root) {i : Nat} (hi : root ≤ i) (hlt : i < s.size) :
    s.frontier i = if (s.node i).kind.isWrapper then s.members i else [i] :=
  h.depth_succ s.frontierWithin (fun _ _ _ _ => frontierWithin_congr) hi hlt

/-- Looking deeper than the schema is large finds nothing more. -/
theorem frontierWithin_eq (h : s.Wired root) {i depth : Nat} (hi : root ≤ i) (hlt : i < s.size)
    (hd : s.size ≤ depth) : s.frontierWithin depth i = s.frontier i :=
  h.depth_irrelevant s.frontierWithin (fun _ _ _ _ => frontierWithin_congr) hi hlt (by omega)
    (by omega)

theorem frontier_of_wrapper (h : s.Wired root) {i : Nat} (hi : root ≤ i) (hlt : i < s.size)
    (hw : (s.node i).kind.isWrapper = true) : s.frontier i = s.members i := by
  rw [h.frontier_eq hi hlt, if_pos hw]

theorem frontier_of_data (h : s.Wired root) {i : Nat} (hi : root ≤ i) (hlt : i < s.size)
    (hw : (s.node i).kind.isWrapper = false) : s.frontier i = [i] := by
  rw [h.frontier_eq hi hlt, if_neg (by simp [hw])]

theorem mem_frontier_iff (h : s.Wired root) {i x : Nat} (hi : root ≤ i) (hlt : i < s.size) :
    x ∈ s.frontier i ↔ s.Exposes i x := by
  induction i, hi, hlt using h.induction_down with
  | step i hi hlt ih =>
    cases hw : (s.node i).kind.isWrapper with
    | false =>
      rw [h.frontier_of_data hi hlt hw, List.mem_singleton]
      constructor
      · rintro rfl
        exact h.exposes_self hi hw
      · exact fun hx => hx.eq_of_data hw
    | true =>
      rw [h.frontier_of_wrapper hi hlt hw, members, List.mem_flatMap,
        h.exposes_iff_of_wrapper hi hw]
      exact exists_congr fun c => and_congr_right fun hc => ih c (below_child hc)

theorem mem_members_iff (h : s.Wired root) {i x : Nat} (hi : root ≤ i) :
    x ∈ s.members i ↔ ∃ c ∈ s.children i, s.Exposes c x := by
  rw [members, List.mem_flatMap]
  exact exists_congr fun c => and_congr_right fun hc =>
    h.mem_frontier_iff (h.root_le_child hi hc) (h.child_lt_size hi hc)

theorem nodup_members_of (h : s.Wired root) {i : Nat} (hi : root ≤ i)
    (hc : ∀ c ∈ s.children i, (s.frontier c).Nodup) : (s.members i).Nodup := by
  refine h.nodup_flatMap hi (h.nodup_children hi) (fun c hc => hc) hc fun c hc x hx => ?_
  exact ((h.mem_frontier_iff (h.root_le_child hi hc) (h.child_lt_size hi hc)).1 hx).atOrBelow

theorem nodup_frontier (h : s.Wired root) {i : Nat} (hi : root ≤ i) (hlt : i < s.size) :
    (s.frontier i).Nodup := by
  induction i, hi, hlt using h.induction_down with
  | step i hi hlt ih =>
    rw [h.frontier_eq hi hlt]
    split
    · exact h.nodup_members_of hi fun c hc => ih c (below_child hc)
    · exact List.nodup_singleton i

theorem nodup_members (h : s.Wired root) {i : Nat} (hi : root ≤ i) : (s.members i).Nodup :=
  h.nodup_members_of hi fun _ hc =>
    h.nodup_frontier (h.root_le_child hi hc) (h.child_lt_size hi hc)

end Wired

end DataTree.Schema
