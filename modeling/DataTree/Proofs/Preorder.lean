import DataTree.Proofs.Frontier
import Mathlib.Data.List.Flatten

/-!
# The order of declaration

`s.subtree i` lists a node and all below it in the order of declaration, each once. The tree below
a node, and what the node and its children stand for, come in that order, too: their lists are
parts of it. So which of two nodes is declared before the other can be read off either list
(`pair_sublist_of_sublist`).
-/

namespace DataTree

/-- Elements that two lists have in common stand in the same order in both, if one list is part of
the other. -/
theorem pair_sublist_of_sublist {α : Type} {xs ys : List α} (h : xs.Sublist ys) (hn : ys.Nodup)
    {a b : α} (hab : [a, b].Sublist ys) (ha : a ∈ xs) (hb : b ∈ xs) : [a, b].Sublist xs := by
  induction h with
  | slnil => cases ha
  | @cons xs ys y hs ih =>
    obtain ⟨hy, hn⟩ := List.nodup_cons.1 hn
    rcases List.sublist_cons_iff.1 hab with hab | ⟨t, e, -⟩
    · exact ih hn hab ha hb
    · cases e
      exact (hy (hs.subset ha)).elim
  | @cons_cons xs ys y hs ih =>
    obtain ⟨hy, hn⟩ := List.nodup_cons.1 hn
    rcases List.sublist_cons_iff.1 hab with hab | ⟨t, e, ht⟩
    · have hne : ∀ {c : α}, c ∈ [a, b] → c ≠ y := fun hc e => hy (e ▸ hab.subset hc)
      have ha := (List.mem_cons.1 ha).resolve_left (hne (by simp))
      have hb := (List.mem_cons.1 hb).resolve_left (hne (by simp))
      exact (ih hn hab ha hb).cons y
    · cases e
      have hby : b ≠ a := fun e => hy (e ▸ ht.subset (List.mem_singleton_self b))
      have hb := (List.mem_cons.1 hb).resolve_left hby
      exact (List.singleton_sublist.2 hb).cons_cons a

namespace Schema.Wired

variable {s : Schema} {root i : Nat}

theorem nodup_subtree (h : s.Wired root) (hi : root ≤ i) (hlt : i < s.size) :
    (s.subtree i).Nodup := by
  induction i, hi, hlt using h.induction_down with
  | step i hi hlt ih =>
    have hmem : ∀ c ∈ s.children i, ∀ x ∈ s.subtree c, s.AtOrBelow c x := fun c hc x hx =>
      (h.mem_subtree_iff (h.root_le_child hi hc) (h.child_lt_size hi hc)).1 hx
    rw [h.subtree_eq hi hlt, List.nodup_cons]
    refine ⟨fun hx => ?_, ?_⟩
    · obtain ⟨c, hc, hx⟩ := List.mem_flatMap.1 hx
      exact h.below_ne hi ((below_child hc).trans_at (hmem c hc i hx)) rfl
    · exact h.nodup_flatMap hi (h.nodup_children hi) (fun c hc => hc)
        (fun c hc => ih c (below_child hc)) hmem

theorem subtree_sublist_subtree (h : s.Wired root) (hi : root ≤ i) (hlt : i < s.size) {j : Nat}
    (hj : s.AtOrBelow i j) : (s.subtree j).Sublist (s.subtree i) := by
  induction i, hi, hlt using h.induction_down with
  | step i hi hlt ih =>
    rcases hj with rfl | hj
    · exact .refl _
    obtain ⟨c, hc, hcj⟩ := hj.exists_child
    have hone := (List.singleton_sublist.2 hc).flatMap s.subtree
    rw [List.flatMap_singleton] at hone
    rw [h.subtree_eq hi hlt]
    exact ((ih c (below_child hc) hcj).trans hone).cons i

theorem frontier_sublist_subtree (h : s.Wired root) (hi : root ≤ i) (hlt : i < s.size) :
    (s.frontier i).Sublist (s.subtree i) := by
  induction i, hi, hlt using h.induction_down with
  | step i hi hlt ih =>
    rw [h.frontier_eq hi hlt, h.subtree_eq hi hlt]
    split
    · exact (List.Sublist.flatMap_right _ fun c hc => ih c (below_child hc)).cons i
    · exact (List.nil_sublist _).cons_cons i

theorem members_sublist_subtree (h : s.Wired root) (hi : root ≤ i) (hlt : i < s.size) :
    (s.members i).Sublist (s.subtree i) := by
  rw [h.subtree_eq hi hlt]
  refine (List.Sublist.flatMap_right _ fun c hc => ?_).cons i
  exact h.frontier_sublist_subtree (h.root_le_child hi hc) (h.child_lt_size hi hc)

end Schema.Wired

end DataTree
