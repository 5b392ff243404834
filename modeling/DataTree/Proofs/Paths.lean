import DataTree.Proofs.Wiring

/-!
# Paths of built nodes

A path grows by one name a level (`IsBuilt.path_child`). Names without a slash can be read off it
again, so then no two nodes have the same path (`IsBuilt.path_inj`).
-/

namespace DataTree

namespace Path

theorem toList_child (path name : String) :
    (child path name).toList = path.toList ++ '/' :: name.toList := by
  simp [child]

/-- The last slash starts nowhere else. -/
theorem eq_nil_of_slash {name name' mid : List Char} (hn : '/' ∉ name)
    (h : '/' :: name = mid ++ '/' :: name') : mid = [] := by
  cases mid with
  | nil => rfl
  | cons c mid =>
    rw [(List.cons.inj h).2] at hn
    exact (hn (List.mem_append_right _ List.mem_cons_self)).elim

theorem child_left_inj {path path' name : String} (h : child path name = child path' name) :
    path = path' := by
  have hl := congrArg String.toList h
  rw [toList_child, toList_child] at hl
  exact String.toList_inj.1 (List.append_cancel_right hl)

/-- Where names have no slash, the last one tells path and name apart. -/
theorem child_inj {path path' name name' : String} (hn : '/' ∉ name.toList)
    (hn' : '/' ∉ name'.toList) (h : child path name = child path' name') :
    path = path' ∧ name = name' := by
  have hl := congrArg String.toList h
  rw [toList_child, toList_child, List.append_eq_append_iff] at hl
  rcases hl with ⟨mid, hp, hs⟩ | ⟨mid, hp, hs⟩
  · cases eq_nil_of_slash hn hs
    rw [List.append_nil] at hp
    exact ⟨String.toList_inj.1 hp.symm, String.toList_inj.1 (List.cons.inj hs).2⟩
  · cases eq_nil_of_slash hn' hs
    rw [List.append_nil] at hp
    exact ⟨String.toList_inj.1 hp, String.toList_inj.1 (List.cons.inj hs).2.symm⟩

end Path

namespace Schema

variable {s : Schema} {root : Nat}

/-! ## From a node to its children -/

/-- Where a built node has a child, a well-formed tree is planted. -/
theorem IsBuilt.exists_planted (h : s.IsBuilt root) {i c : Nat} (hi : root ≤ i)
    (hc : c ∈ s.children i) : ∃ (t : Tree) (name : Name) (path : String)
      (parent : Option NodeId), t.WellFormed ∧ t.Planted s name path parent i := by
  obtain ⟨s₀, description, name, parent, -, hb, rfl⟩ := h
  obtain ⟨t, ht, rfl⟩ := build_eq_ok_iff.1 hb
  have hlt := lt_size_of_mem_children hc
  rw [size_plant] at hlt
  obtain ⟨u, name', path', parent', hwu, hu, -⟩ :=
    (t.planted_plant s₀ name _ parent).exists_planted (Tree.wellFormed_of_ofValue ht) hi hlt
  exact ⟨u, name', path', parent', hwu, hu⟩

theorem IsBuilt.path_child (h : s.IsBuilt root) {i c : Nat} (hi : root ≤ i)
    (hc : c ∈ s.children i) :
    (s.node c).path = Path.child (s.node i).path (s.node c).name.text := by
  obtain ⟨t, name, path, parent, hwt, ht⟩ := h.exists_planted hi hc
  obtain ⟨u, key, -, hu, -⟩ := ht.child hwt hc
  rw [hu.node, ht.node]

/-- Siblings whose names show alike are the same. -/
theorem IsBuilt.child_inj (h : s.IsBuilt root) {i c c' : Nat} (hi : root ≤ i)
    (hc : c ∈ s.children i) (hc' : c' ∈ s.children i)
    (ht : (s.node c).name.text = (s.node c').name.text) : c = c' := by
  obtain ⟨name, hn⟩ := Option.isSome_iff_exists.1 (h.wired.named hi hc)
  obtain ⟨name', hn'⟩ := Option.isSome_iff_exists.1 (h.wired.named hi hc')
  rw [hn, hn'] at ht
  have ht : name = name' := ht
  apply List.inj_on_of_nodup_map (h.wired.nodup_names hi) hc hc'
  rw [hn, hn', ht]

/-! ## All nodes below a node -/

/-- What is below a node extends its path. -/
theorem IsBuilt.exists_path_below (h : s.IsBuilt root) {a d : Nat} (ha : root ≤ a)
    (hd : s.Below a d) : ∃ rest : List Char,
      (s.node d).path.toList = (s.node a).path.toList ++ '/' :: rest := by
  induction hd with
  | single hc => exact ⟨_, by rw [h.path_child ha hc, Path.toList_child]⟩
  | @tail b c hb hc ih =>
    obtain ⟨rest, hrest⟩ := ih
    have hrb := h.wired.root_le_below ha (.inr hb)
    refine ⟨rest ++ '/' :: (s.node c).name.text.toList, ?_⟩
    rw [h.path_child hrb hc, Path.toList_child, hrest, List.append_assoc, List.cons_append]

/-- One name without a slash leads one level down. -/
theorem IsBuilt.mem_children_of_path (h : s.IsBuilt root) {a d : Nat} (ha : root ≤ a)
    (hd : s.Below a d) {name : String} (hn : '/' ∉ name.toList)
    (hp : (s.node d).path = Path.child (s.node a).path name) :
    d ∈ s.children a ∧ (s.node d).name.text = name := by
  obtain ⟨q, hq, hdq⟩ := hd.exists_mem
  have hrq := h.wired.root_le_below ha hq
  have hl := congrArg String.toList hp
  rw [h.path_child hrq hdq, Path.toList_child, Path.toList_child] at hl
  rcases hq with rfl | hq
  · have htail := (List.cons.inj (List.append_cancel_left hl)).2
    exact ⟨hdq, String.toList_inj.1 htail⟩
  · obtain ⟨rest, hrest⟩ := h.exists_path_below ha hq
    rw [hrest, List.append_assoc, List.cons_append] at hl
    have htail := (List.cons.inj (List.append_cancel_left hl)).2
    have hmem : '/' ∈ name.toList := by
      rw [← htail]
      exact List.mem_append_right _ List.mem_cons_self
    exact (hn hmem).elim

theorem IsBuilt.path_ne_of_below (h : s.IsBuilt root) {a d : Nat} (ha : root ≤ a)
    (hd : s.Below a d) : (s.node a).path ≠ (s.node d).path := by
  intro e
  obtain ⟨rest, hrest⟩ := h.exists_path_below ha hd
  rw [← e] at hrest
  simpa using congrArg List.length hrest

/-- No child has a name with a slash. -/
def Slashless (s : Schema) (root : NodeId) : Prop :=
  ∀ i ∈ s.subtree root, ∀ c ∈ s.children i, '/' ∉ (s.node c).name.text.toList

instance (s : Schema) (root : NodeId) : Decidable (s.Slashless root) :=
  inferInstanceAs (Decidable (∀ i ∈ s.subtree root, ∀ c ∈ s.children i,
    '/' ∉ (s.node c).name.text.toList))

theorem IsBuilt.path_inj (h : s.IsBuilt root) (hs : s.Slashless root) {i j : Nat}
    (hi : i ∈ s.subtree root) (hj : j ∈ s.subtree root)
    (he : (s.node i).path = (s.node j).path) : i = j := by
  have hw := h.wired
  have hsub : ∀ {k : Nat}, k ∈ s.subtree root ↔ s.AtOrBelow root k :=
    hw.mem_subtree_iff (Nat.le_refl _) hw.root_lt_size
  rw [hsub] at hi hj
  -- the last names agree, and so do the paths of the parents
  induction i using Nat.strongRecOn generalizing j with
  | ind i ih =>
    rcases hi with rfl | hi
    · rcases hj with rfl | hj
      · rfl
      · exact (h.path_ne_of_below (Nat.le_refl _) hj he).elim
    rcases hj with rfl | hj
    · exact (h.path_ne_of_below (Nat.le_refl _) hi he.symm).elim
    obtain ⟨q, hq, hqi⟩ := hi.exists_mem
    obtain ⟨q', hq', hqj⟩ := hj.exists_mem
    have hrq := hw.root_le_below (Nat.le_refl _) hq
    have hrq' := hw.root_le_below (Nat.le_refl _) hq'
    rw [h.path_child hrq hqi, h.path_child hrq' hqj] at he
    obtain ⟨hpath, hname⟩ := Path.child_inj (hs q (hsub.2 hq) i hqi) (hs q' (hsub.2 hq') j hqj) he
    cases ih q (hw.lt_child hrq hqi) hq hq' hpath
    exact h.child_inj hrq hqi hqj hname

end Schema

end DataTree
