import DataTree.Proofs.Described
import DataTree.Schema.Planting

/-!
# Planted trees

`t.Planted s name path parent i`: the nodes of `t` stand in `s` from number `i` on, its root under
the given name, path and parent. Planting a tree puts it there (`planted_plant`) and leaves the
older nodes alone (`node_plant_of_lt`). Every node of a planted tree is the root of a planted tree
again (`exists_planted`), so a fact about all nodes is proved for one root.
-/

namespace DataTree

def Forest.Planted (s : Schema) (parent : NodeId) (path : String) (start : NodeId) : Forest → Prop
  | nil => True
  | cons name kind visibility children rest =>
    s.node start = ⟨name, kind, visibility, Path.child path name.text,
      children.slots (start + 1), some parent⟩ ∧
    children.Planted s start (Path.child path name.text) (start + 1) ∧
    rest.Planted s parent path (start + children.size + 1)

structure Tree.Planted (t : Tree) (s : Schema) (name : Name) (path : String)
    (parent : Option NodeId) (i : NodeId) : Prop where
  node : s.node i = ⟨name, t.kind, t.visibility, path, t.children.slots (i + 1), parent⟩
  below : t.children.Planted s i path (i + 1)

/-! ## Reading a schema -/

namespace Schema

theorem node_of_size_le {s : Schema} {i : Nat} (h : s.size ≤ i) : s.node i = .absent := by
  unfold node
  rw [Array.getElem?_eq_none h]
  rfl

theorem lt_size_of_mem_children {s : Schema} {i c : Nat} (h : c ∈ s.children i) :
    i < s.size := by
  rcases Nat.lt_or_ge i s.size with hi | hi
  · exact hi
  · rw [children, node_of_size_le hi] at h
    cases h

variable {s : Schema} {t : Tree} {name : Name} {path : String} {parent : Option NodeId}

theorem node_plant_of_lt {i : Nat} (h : i < s.size) :
    (s.plant t name path parent).node i = s.node i := by
  simp only [node, plant, Array.getElem?_append_left h]

theorem node_plant_of_le (k : Nat) :
    (s.plant t name path parent).node (s.size + k) =
      (t.nodes name path parent s.size)[k]?.getD .absent := by
  simp only [node, plant, size]
  rw [Array.getElem?_append_right (by omega), Nat.add_sub_cancel_left, List.getElem?_toArray]

end Schema

/-! ## Planting -/

theorem Forest.planted_of_nodes {s : Schema} {f : Forest} {parent : NodeId} {path : String}
    {start : Nat}
    (h : ∀ k n, (f.nodes parent path start)[k]? = some n → s.node (start + k) = n) :
    f.Planted s parent path start := by
  induction f generalizing parent path start with
  | nil => trivial
  | cons name kind visibility children rest ihc ihr =>
    have hlen := children.length_nodes start (Path.child path name.text) (start + 1)
    refine ⟨h 0 _ rfl, ihc fun k n hn => ?_, ihr fun k n hn => ?_⟩
    · rw [Nat.add_assoc, Nat.add_comm 1]
      refine h (k + 1) n ?_
      rw [nodes, List.getElem?_cons_succ, List.getElem?_append_left ?_, hn]
      exact (List.getElem?_eq_some_iff.1 hn).1
    · rw [show start + children.size + 1 + k = start + (children.size + k + 1) by omega]
      refine h _ n ?_
      rw [nodes, List.getElem?_cons_succ, List.getElem?_append_right (by omega), hlen,
        Nat.add_sub_cancel_left, hn]

/-- A planted tree stands where the schema ended before. -/
theorem Tree.planted_plant (s : Schema) (t : Tree) (name : Name) (path : String)
    (parent : Option NodeId) :
    t.Planted (s.plant t name path parent) name path parent s.size := by
  refine ⟨s.node_plant_of_le 0, Forest.planted_of_nodes fun k n hn => ?_⟩
  rw [Nat.add_assoc, Nat.add_comm 1, s.node_plant_of_le, Tree.nodes, List.getElem?_cons_succ, hn]
  rfl

/-! ## Children of planted nodes -/

variable {s : Schema}

/-- A reference leads to the root of a planted tree, within the room of the siblings. -/
theorem Forest.Planted.slot {f : Forest} {parent : NodeId} {path : String} {start : Nat}
    (h : f.Planted s parent path start) (hw : f.WellFormed) {name : Name} {c : Nat}
    (hc : (name, c) ∈ f.slots start) :
    ∃ t : Tree, t.WellFormed ∧ t.Planted s name (Path.child path name.text) (some parent) c ∧
      start ≤ c ∧ c + t.size ≤ start + f.size := by
  induction f generalizing start with
  | nil => cases hc
  | cons name' kind visibility children rest _ ihr =>
    obtain ⟨hn, hb, hr⟩ := h
    obtain ⟨-, -, hk, hwc, hwr⟩ := hw
    rcases List.mem_cons.1 hc with e | hc
    · cases e
      refine ⟨⟨kind, visibility, children⟩, ⟨hk, hwc⟩, ⟨hn, hb⟩, Nat.le_refl _, ?_⟩
      simp only [Tree.size, Forest.size]
      omega
    · obtain ⟨t, hwt, ht, hle, hlt⟩ := ihr hr hwr hc
      refine ⟨t, hwt, ht, by omega, ?_⟩
      simp only [Forest.size]
      omega

/-- A node among planted siblings and what is below them is one of them or the child of another
one there. -/
theorem Forest.Planted.mem_slots_or {f : Forest} {parent : NodeId} {path : String}
    {start i : Nat} (h : f.Planted s parent path start) (hi : start ≤ i)
    (hlt : i < start + f.size) :
    (∃ name, (name, i) ∈ f.slots start) ∨ ∃ q, start ≤ q ∧ q < i ∧ i ∈ s.children q := by
  induction f generalizing parent path start with
  | nil => exact absurd hlt (by simp [Forest.size, hi])
  | cons name kind visibility children rest ihc ihr =>
    obtain ⟨hn, hb, hr⟩ := h
    simp only [Forest.size] at hlt
    rcases Nat.eq_or_lt_of_le hi with rfl | hi
    · exact .inl ⟨name, List.mem_cons_self⟩
    rcases Nat.lt_or_ge i (start + children.size + 1) with hc | hc
    · -- below the first sibling
      right
      rcases ihc hb hi (by omega) with ⟨name', hs⟩ | ⟨q, hq, hqi, hm⟩
      · refine ⟨start, Nat.le_refl _, hi, ?_⟩
        rw [Schema.children, hn]
        exact Entries.mem_values_of_mem hs
      · exact ⟨q, by omega, hqi, hm⟩
    · rcases ihr hr hc (by omega) with ⟨name', hs⟩ | ⟨q, hq, hqi, hm⟩
      · exact .inl ⟨name', List.mem_cons_of_mem _ hs⟩
      · exact .inr ⟨q, by omega, hqi, hm⟩

namespace Tree.Planted

variable {t : Tree} {name : Name} {path : String} {parent : Option NodeId} {root i : Nat}

theorem children_eq (h : t.Planted s name path parent i) :
    (s.node i).children = t.children.slots (i + 1) := by
  rw [h.node]

theorem exists_key (h : t.Planted s name path parent i) {c : Nat} (hc : c ∈ s.children i) :
    ∃ key, (key, c) ∈ t.children.slots (i + 1) := by
  rw [Schema.children, h.children_eq] at hc
  exact Entries.exists_mem_of_mem_values hc

/-- All but the root of a planted tree are children in it. -/
theorem exists_parent (h : t.Planted s name path parent root) (hi : root < i)
    (hlt : i < root + t.size) : ∃ q, root ≤ q ∧ q < i ∧ i ∈ s.children q := by
  simp only [Tree.size] at hlt
  rcases h.below.mem_slots_or hi (by omega) with ⟨key, hs⟩ | ⟨q, hq, hqi, hm⟩
  · refine ⟨root, Nat.le_refl _, hi, ?_⟩
    rw [Schema.children, h.children_eq]
    exact Entries.mem_values_of_mem hs
  · exact ⟨q, by omega, hqi, hm⟩

/-- A child of a planted tree's root is the root of a planted tree. -/
theorem child (h : t.Planted s name path parent i) (hw : t.WellFormed) {c : Nat}
    (hc : c ∈ s.children i) :
    ∃ (u : Tree) (key : Name), u.WellFormed ∧
      u.Planted s key (Path.child path key.text) (some i) c ∧
      i < c ∧ c + u.size ≤ i + t.size := by
  obtain ⟨key, hs⟩ := h.exists_key hc
  obtain ⟨u, hwu, hu, hle, hlt⟩ := h.below.slot hw.children hs
  refine ⟨u, key, hwu, hu, hle, ?_⟩
  simp only [Tree.size] at hlt ⊢
  omega

theorem exists_planted (h : t.Planted s name path parent root) (hw : t.WellFormed)
    (hi : root ≤ i) (hlt : i < root + t.size) :
    ∃ (u : Tree) (name' : Name) (path' : String) (parent' : Option NodeId), u.WellFormed ∧
      u.Planted s name' path' parent' i ∧ i + u.size ≤ root + t.size := by
  induction i using Nat.strongRecOn with
  | ind i ih =>
    rcases Nat.eq_or_lt_of_le hi with rfl | hi
    · exact ⟨t, name, path, parent, hw, h, Nat.le_refl _⟩
    obtain ⟨q, hq, hqi, hm⟩ := h.exists_parent hi hlt
    obtain ⟨v, name', path', parent', hwv, hv, hle⟩ := ih q hqi hq (by omega)
    obtain ⟨u, key, hwu, hu, -, hle'⟩ := hv.child hwv hm
    exact ⟨u, key, _, _, hwu, hu, by omega⟩

end Tree.Planted

end DataTree
