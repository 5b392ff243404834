import DataTree.Proofs.Matching
import DataTree.Proofs.Reordered
import DataTree.Proofs.Wiring

/-!
# Trees that are the same but for the order of siblings

`SamePlace s root s' root' i i'`: the same chain of keys leads from `root` to `i` and from `root'`
to `i'`. After building a description and a reordered one, nodes in the same place have the same
name, kind, path and effective visibility, and children of the same names (`exists_twins`).

`Twins s root s' root' R` is what the proofs about resolution take from this: two wired trees and
a relation under which all of that holds, children being matched in any order.
-/

namespace DataTree.Schema

/-! ## Closed schemas -/

/-- Every parent is a node of the schema. -/
def Closed (s : Schema) : Prop :=
  ∀ {i q : Nat}, (s.node i).parent = some q → q < s.size

theorem closed_empty : empty.Closed := by
  intro i q hq
  rw [node_of_size_le (Nat.zero_le i)] at hq
  cases hq

/-! ## Places -/

inductive SamePlace (s : Schema) (root : Nat) (s' : Schema) (root' : Nat) : Nat → Nat → Prop
  | root : SamePlace s root s' root' root root'
  | child {i i' c c' : Nat} {key : Name} : SamePlace s root s' root' i i' →
      (s.node i).children.get? key = some c → (s'.node i').children.get? key = some c' →
      SamePlace s root s' root' c c'

variable {s₀ s s' : Schema} {root root' : Nat} {R : Nat → Nat → Prop}

structure Twins (s : Schema) (root : Nat) (s' : Schema) (root' : Nat) (R : Nat → Nat → Prop) :
    Prop where
  wired : s.Wired root
  wired' : s'.Wired root'
  range : ∀ {i i' : Nat}, R i i' → (root ≤ i ∧ i < s.size) ∧ root' ≤ i' ∧ i' < s'.size
  name : ∀ {i i' : Nat}, R i i' → (s.node i).name = (s'.node i').name
  kind : ∀ {i i' : Nat}, R i i' → (s.node i).kind = (s'.node i').kind
  path : ∀ {i i' : Nat}, R i i' → (s.node i).path = (s'.node i').path
  writable : ∀ {i i' : Nat}, R i i' → s.writable i = s'.writable i'
  children : ∀ {i i' : Nat}, R i i' → Matched R (s.children i) (s'.children i')

/-- Nodes with the same declaration and such parents have the same effective visibility. -/
theorem writableWithin_congr
    (hv : ∀ {i i'}, R i i' → (s.node i).visibility = (s'.node i').visibility)
    (hparent : ∀ {i i'}, R i i' → Option.Rel R (s.node i).parent (s'.node i').parent)
    {i i' : Nat} (h : R i i') (depth : Nat) :
    s.writableWithin depth i = s'.writableWithin depth i' := by
  induction depth generalizing i i' with
  | zero => rfl
  | succ depth ih =>
    rw [writableWithin, writableWithin, hv h]
    have hq := hparent h
    generalize (s.node i).parent = q at hq ⊢
    generalize (s'.node i').parent = q' at hq ⊢
    cases hq with
    | none => rfl
    | some hq => simp only [ih hq]

theorem Twins.symm (h : Twins s root s' root' R) : Twins s' root' s root fun i' i => R i i' where
  wired := h.wired'
  wired' := h.wired
  range hr := ⟨(h.range hr).2, (h.range hr).1⟩
  name hr := (h.name hr).symm
  kind hr := (h.kind hr).symm
  path hr := (h.path hr).symm
  writable hr := (h.writable hr).symm
  children hr := (h.children hr).symm

end DataTree.Schema

namespace DataTree

variable {s₀ s s' : Schema} {root root' : Nat}

/-! ## What stands in the same place -/

theorem Forest.Planted.exists_find? {f : Forest} {q : NodeId} {path : String} {start : Nat}
    (h : f.Planted s q path start) {key : Name} {c : Nat}
    (hc : (f.slots start).get? key = some c) :
    ∃ t, f.find? key = some t ∧ t.Planted s key (Path.child path key.text) (some q) c := by
  induction f generalizing start with
  | nil => cases hc
  | cons name kind visibility children rest _ ihr =>
    obtain ⟨hn, hb, hr⟩ := h
    rw [Forest.slots, Entries.get?_cons] at hc
    rw [Forest.find?]
    by_cases hk : name = key
    · rw [if_pos hk] at hc ⊢
      cases hc
      exact ⟨_, rfl, hk ▸ hn, hk ▸ hb⟩
    · rw [if_neg hk] at hc ⊢
      exact ihr hr hc

namespace Schema.SamePlace

variable {t t' : Tree} {name : Name} {path : String} {parent parent' : Option NodeId} {i i' : Nat}

/-- In the same place stand trees that are reordered themselves. -/
theorem exists_planted (h : SamePlace s root s' root' i i')
    (ht : t.Planted s name path parent root) (ht' : t'.Planted s' name path parent' root')
    (hr : t.Reordered t') :
    ∃ (u u' : Tree) (name₁ : Name) (path₁ : String) (q q' : Option NodeId),
      u.Planted s name₁ path₁ q i ∧ u'.Planted s' name₁ path₁ q' i' ∧ u.Reordered u' := by
  induction h with
  | root => exact ⟨t, t', name, path, parent, parent', ht, ht', hr⟩
  | @child i i' c c' key _ hc hc' ih =>
    obtain ⟨u, u', name₁, path₁, q, q', hu, hu', hur⟩ := ih
    rw [hu.children_eq] at hc
    rw [hu'.children_eq] at hc'
    obtain ⟨v, hv, hvp⟩ := hu.below.exists_find? hc
    obtain ⟨v', hv', hvp'⟩ := hu'.below.exists_find? hc'
    obtain ⟨w, hw, hvr⟩ := hur.children.exists_find? hv
    cases hw.symm.trans hv'
    exact ⟨v, v', key, _, some i, some i', hvp, hvp', hvr⟩

theorem mem_children (hc : (s.node i).children.get? name = some i') : i' ∈ s.children i :=
  Entries.mem_values_of_mem (Entries.mem_of_get? hc)

theorem atOrBelow {n n' : Nat} (h : SamePlace s n s' n' i i') :
    s.AtOrBelow n i ∧ s'.AtOrBelow n' i' := by
  induction h with
  | root => exact ⟨.inl rfl, .inl rfl⟩
  | child _ hc hc' ih =>
    exact ⟨.inr (ih.1.trans_below (below_child (mem_children hc))),
      .inr (ih.2.trans_below (below_child (mem_children hc')))⟩

theorem range_of_range {n n' : Nat} (h : SamePlace s n s' n' i i') (hw : s.Wired root)
    (hw' : s'.Wired root') (hn : root ≤ n ∧ n < s.size) (hn' : root' ≤ n' ∧ n' < s'.size) :
    (root ≤ i ∧ i < s.size) ∧ root' ≤ i' ∧ i' < s'.size :=
  ⟨⟨hw.root_le_below hn.1 h.atOrBelow.1, hw.atOrBelow_lt_size hn.1 hn.2 h.atOrBelow.1⟩,
    hw'.root_le_below hn'.1 h.atOrBelow.2, hw'.atOrBelow_lt_size hn'.1 hn'.2 h.atOrBelow.2⟩

theorem range (h : SamePlace s root s' root' i i') (hw : s.Wired root) (hw' : s'.Wired root') :
    (root ≤ i ∧ i < s.size) ∧ root' ≤ i' ∧ i' < s'.size :=
  h.range_of_range hw hw' ⟨Nat.le_refl _, hw.root_lt_size⟩ ⟨Nat.le_refl _, hw'.root_lt_size⟩

theorem symm {n n' : Nat} (h : SamePlace s n s' n' i i') : SamePlace s' n' s n i' i := by
  induction h with
  | root => exact .root
  | child _ hc hc' ih => exact .child ih hc' hc

theorem matched_children (h : SamePlace s root s' root' i i') (hw : s.Wired root)
    (hw' : s'.Wired root') (hk : (s.node i).children.keys.Perm (s'.node i').children.keys) :
    Matched (SamePlace s root s' root') (s.children i) (s'.children i') := by
  obtain ⟨⟨hi, -⟩, -⟩ := h.range hw hw'
  exact Entries.matched_values (hw.nodup_keys hi) hk fun hc hc' => h.child hc hc'

/-- Same place, or the same node of the schema that was there before. -/
theorem parents (hcl : s₀.Closed) (hp : ∀ q : Nat, parent = some q → q < s₀.size)
    (hw : (s₀.plant t name path parent).Wired s₀.size)
    (hw' : (s₀.plant t' name path parent).Wired s₀.size)
    (h : SamePlace (s₀.plant t name path parent) s₀.size (s₀.plant t' name path parent) s₀.size
      i i' ∨ i = i' ∧ i < s₀.size) :
    Option.Rel (fun q q' => SamePlace (s₀.plant t name path parent) s₀.size
        (s₀.plant t' name path parent) s₀.size q q' ∨ q = q' ∧ q < s₀.size)
      ((s₀.plant t name path parent).node i).parent
      ((s₀.plant t' name path parent).node i').parent := by
  rcases h with h | ⟨rfl, hlt⟩
  · cases h with
    | root =>
      rw [(t.planted_plant s₀ name path parent).node, (t'.planted_plant s₀ name path parent).node]
      cases parent with
      | none => exact .none
      | some q => exact .some (.inr ⟨rfl, hp q rfl⟩)
    | child h hc hc' =>
      obtain ⟨⟨hi, -⟩, hi', -⟩ := h.range hw hw'
      rw [hw.child_parent hi (mem_children hc), hw'.child_parent hi' (mem_children hc')]
      exact .some (.inl h)
  · rw [node_plant_of_lt hlt, node_plant_of_lt hlt]
    cases hq : (s₀.node i).parent with
    | none => exact .none
    | some q => exact .some (.inr ⟨rfl, hcl hq⟩)

end Schema.SamePlace

namespace Schema

/-- A reordered tree in place of a tree. -/
theorem twins_plant {t t' : Tree} {name : Name} {path : String} {parent : Option NodeId}
    (hcl : s₀.Closed) (hp : ∀ q : Nat, parent = some q → q < s₀.size) (hr : t.Reordered t')
    (hw : (s₀.plant t name path parent).Wired s₀.size)
    (hw' : (s₀.plant t' name path parent).Wired s₀.size) :
    Twins (s₀.plant t name path parent) s₀.size (s₀.plant t' name path parent) s₀.size
      (SamePlace (s₀.plant t name path parent) s₀.size (s₀.plant t' name path parent)
        s₀.size) := by
  have hplanted : ∀ {i i' : Nat}, SamePlace (s₀.plant t name path parent) s₀.size
      (s₀.plant t' name path parent) s₀.size i i' → _ := fun h =>
    h.exists_planted (t.planted_plant s₀ name path parent) (t'.planted_plant s₀ name path parent) hr
  have hsize : (s₀.plant t name path parent).size = (s₀.plant t' name path parent).size := by
    rw [size_plant, size_plant, Tree.size, Tree.size, hr.children.size_eq]
  refine ⟨hw, hw', fun h => h.range hw hw', fun h => ?_, fun h => ?_, fun h => ?_, fun h => ?_,
    fun h => h.matched_children hw hw' ?_⟩ <;>
    obtain ⟨u, u', name₁, path₁, q, q', hu, hu', hur⟩ := hplanted h
  · rw [hu.node, hu'.node]
  · rw [hu.node, hu'.node, hur.kind]
  · rw [hu.node, hu'.node]
  · rw [writable, writable, hsize]
    refine writableWithin_congr (fun h => ?_) (SamePlace.parents hcl hp hw hw') (.inl h) _
    rcases h with h | ⟨rfl, hlt⟩
    · obtain ⟨v, v', _, _, _, _, hv, hv', hvr⟩ := hplanted h
      rw [hv.node, hv'.node, hvr.visibility]
    · rw [node_plant_of_lt hlt, node_plant_of_lt hlt]
  · rw [hu.children_eq, hu'.children_eq, Forest.keys_slots, Forest.keys_slots]
    exact hur.children.perm_names

/-- A reordered description is accepted, too, and the two trees are twins. -/
theorem exists_twins {description description' : Value} {name : Name} {parent : Option NodeId}
    (hcl : s₀.Closed) (hp : ∀ q : Nat, parent = some q → q < s₀.size)
    (hd : description.Reordered description') (hb : s₀.build description name parent = .ok s) :
    ∃ s', s₀.build description' name parent = .ok s' ∧
      Twins s s₀.size s' s₀.size (SamePlace s s₀.size s' s₀.size) := by
  obtain ⟨t, ht, rfl⟩ := build_eq_ok_iff.1 hb
  obtain ⟨t', ht', hr⟩ := hd.exists_ofValue ht
  have hb' := build_eq_ok_iff.2 ⟨t', ht', rfl⟩
  have hw := IsBuilt.wired ⟨s₀, description, name, parent, hp, hb, rfl⟩
  have hw' := IsBuilt.wired ⟨s₀, description', name, parent, hp, hb', rfl⟩
  exact ⟨_, hb', twins_plant hcl hp hr hw hw'⟩

end Schema

end DataTree
