import DataTree.Proofs.Reordered
import DataTree.Proofs.Wiring

/-!
# Renamed descriptions

`v.renamed ρ`: the description with `ρ key` for every key of a child, at all levels. If `ρ` tells
names apart, it is accepted whenever `v` is, and describes the renamed tree
(`Tree.ofValue_renamed`).

Both trees have the same shape, so when they are planted in the same place a node and its renamed
counterpart get the same number: `s.Renames root s' ρ` compares the two schemas number by number.
-/

namespace DataTree

/-! ## Descriptions -/

mutual

def Value.renamed (ρ : String → String) : Value → Value
  | .map fields => .map (Value.renamedFields ρ fields)
  | v => v

/-- The fields of a description; the first one under `children` lists nodes by name. -/
def Value.renamedFields (ρ : String → String) : List (String × Value) → List (String × Value)
  | [] => []
  | (key, v) :: rest =>
    if key = "children" then
      match v with
      | .map entries => (key, .map (Value.renamedEntries ρ entries)) :: rest
      | _ => (key, v) :: rest
    else (key, v) :: Value.renamedFields ρ rest

def Value.renamedEntries (ρ : String → String) : List (String × Value) → List (String × Value)
  | [] => []
  | (key, v) :: rest => (ρ key, v.renamed ρ) :: Value.renamedEntries ρ rest

end

variable {ρ : String → String}

theorem Value.length_renamedEntries (entries : List (String × Value)) :
    (renamedEntries ρ entries).length = entries.length := by
  induction entries with
  | nil => rw [renamedEntries]
  | cons entry rest ih => rw [renamedEntries, List.length_cons, ih, List.length_cons]

theorem Value.renamedFields_children {rest : List (String × Value)} {v : Value} :
    renamedFields ρ (("children", v) :: rest) =
      match v with
      | .map entries => ("children", .map (renamedEntries ρ entries)) :: rest
      | _ => ("children", v) :: rest := by
  rw [renamedFields.eq_def]
  rfl

theorem Value.renamedFields_other {key : String} {rest : List (String × Value)} {v : Value}
    (h : key ≠ "children") :
    renamedFields ρ ((key, v) :: rest) = (key, v) :: renamedFields ρ rest := by
  rw [renamedFields.eq_def]
  simp only [if_neg h]

/-- Renaming changes no field, or the entries of the first one under `children`. -/
theorem Value.renamedFields_cases (ρ : String → String) (fields : List (String × Value)) :
    renamedFields ρ fields = fields ∨ ∃ before entries after,
      "children" ∉ Entries.keys before ∧
      fields = before ++ ("children", .map entries) :: after ∧
      renamedFields ρ fields =
        before ++ ("children", .map (renamedEntries ρ entries)) :: after := by
  induction fields with
  | nil => exact .inl rfl
  | cons field rest ih =>
    obtain ⟨key, v⟩ := field
    by_cases hk : key = "children"
    · subst hk
      rw [renamedFields_children]
      cases v with
      | map entries => exact .inr ⟨[], entries, rest, List.not_mem_nil, rfl, rfl⟩
      | _ => exact .inl rfl
    · rw [renamedFields_other hk]
      rcases ih with h | ⟨before, entries, after, hb, rfl, hren⟩
      · exact .inl (congrArg _ h)
      · refine .inr ⟨(key, v) :: before, entries, after, ?_, rfl, congrArg _ hren⟩
        rw [Entries.keys, List.map_cons, List.mem_cons, not_or]
        exact ⟨Ne.symm hk, hb⟩

namespace Description

variable {name name' : Name} {path path' : String} {fields : Entries String Value}

theorem checkChildren_of_ok (h : checkChildren name fields = .ok ()) :
    checkChildren name' fields = .ok () := by
  unfold checkChildren at h ⊢
  split at h
  · rfl
  · rfl
  · rfl
  · cases h

theorem declaredKind_of_ok {k : Kind} (h : declaredKind name fields = .ok k) :
    declaredKind name' fields = .ok k := by
  unfold declaredKind at h ⊢
  split at h
  · exact h
  · exact h
  · split at h
    · exact h
    · cases h

theorem kind_of_ok {k : Kind} (h : kind name fields = .ok k) : kind name' fields = .ok k := by
  simp only [kind, bind_eq_ok_iff] at h ⊢
  obtain ⟨declared, hd, hk⟩ := h
  exact ⟨declared, declaredKind_of_ok hd, hk⟩

theorem visibility_of_ok {v : Visibility} (h : visibility name fields = .ok v) :
    visibility name' fields = .ok v := by
  unfold visibility at h ⊢
  split at h
  · exact h
  · exact h
  · exact h
  · split at h
    · exact h
    · cases h

/-- The name and the path of a node only show in faults. -/
theorem header_of_ok {k : Kind} {v : Visibility} (h : header name path fields = .ok (k, v)) :
    header name' path' fields = .ok (k, v) := by
  simp only [header, bind_eq_ok_iff] at h ⊢
  obtain ⟨_, hc, k', hk, v', hv, h⟩ := h
  refine ⟨(), checkChildren_of_ok hc, k', kind_of_ok hk, v', visibility_of_ok hv, ?_⟩
  split at h
  · simp [map_eq_ok_iff] at h
  · rename_i hd
    rwa [if_neg hd]

/-- Nor do the names of the children show in the node itself. -/
theorem header_renamed {k : Kind} {v : Visibility} (h : header name path fields = .ok (k, v)) :
    header name' path' (Value.renamedFields ρ fields) = .ok (k, v) := by
  rcases Value.renamedFields_cases ρ fields with e | ⟨before, entries, after, hb, rfl, e⟩
  · rw [e]
    exact header_of_ok h
  · rw [e, ← header_reordered hb (Value.length_renamedEntries entries).symm]
    exact header_of_ok h

end Description

/-! ## Trees -/

def Forest.renamed (ρ : String → String) : Forest → Forest
  | nil => nil
  | cons name kind visibility children rest =>
    cons (name.map ρ) kind visibility (children.renamed ρ) (rest.renamed ρ)

def Tree.renamed (ρ : String → String) (t : Tree) : Tree :=
  ⟨t.kind, t.visibility, t.children.renamed ρ⟩

/-- The renamed description of a tree describes the renamed tree. -/
theorem Tree.ofValue_renamed (hρ : Function.Injective ρ) {name name' : Name} {path path' : String}
    {v : Value} {t : Tree} (h : Tree.ofValue name path v = .ok t) :
    Tree.ofValue name' path' (v.renamed ρ) = .ok (t.renamed ρ) := by
  revert name' path' t
  refine (Tree.ofValue.mutual_induct
    (fun name path v => ∀ {name' path' t}, Tree.ofValue name path v = .ok t →
      Tree.ofValue name' path' (v.renamed ρ) = .ok (t.renamed ρ))
    (fun path fields => ∀ {path' f}, Forest.ofFields path fields = .ok f →
      Forest.ofFields path' (Value.renamedFields ρ fields) = .ok (f.renamed ρ))
    (fun path seen entries => ∀ {path' f}, Forest.ofEntries path seen entries = .ok f →
      Forest.ofEntries path' (seen.map ρ) (Value.renamedEntries ρ entries) = .ok (f.renamed ρ))
    ?mapping ?noMapping ?noFields ?children ?noChildren ?otherField ?noEntries ?seenEntry
    ?newEntry).1 name path v
  case mapping =>
    intro name path fields ih name' path' t h
    obtain ⟨hh, hf⟩ := Tree.ofValue_map_eq_ok_iff.1 h
    rw [Value.renamed]
    exact Tree.ofValue_map_eq_ok_iff.2 ⟨Description.header_renamed hh, ih hf⟩
  case noMapping =>
    intro name path v hv name' path' t h
    obtain ⟨fields, rfl⟩ := Tree.exists_map_of_ofValue h
    exact (hv fields rfl).elim
  case noFields | noEntries =>
    intros
    rename_i h
    cases pure_eq_ok_iff.1 h
    rfl
  case children =>
    intro path rest entries ih path' f h
    rw [Forest.ofFields_children] at h
    rw [Value.renamedFields_children, Forest.ofFields_children]
    exact ih h
  case noChildren =>
    intro path rest v hv path' f h
    rw [Value.renamedFields_children]
    rw [Forest.ofFields_children] at h
    cases v with
    | map entries => exact (hv entries rfl).elim
    | _ =>
      cases h
      rw [Forest.ofFields_children]
      rfl
  case otherField =>
    intro path key v rest hk ih path' f h
    rw [Value.renamedFields_other hk, Forest.ofFields_other hk]
    exact ih (Forest.ofFields_other hk ▸ h)
  case seenEntry =>
    intro path seen key v rest hs ih path' f h
    rw [Value.renamedEntries, Forest.ofEntries_cons_seen (List.mem_map_of_mem hs)]
    exact ih (Forest.ofEntries_cons_seen hs v rest ▸ h)
  case newEntry =>
    intro path seen key v rest hs iht ihr path' f h
    obtain ⟨t, siblings, ht, hr, rfl⟩ := (Forest.ofEntries_cons_eq_ok_iff hs).1 h
    have hs' : ρ key ∉ seen.map ρ := by rwa [List.mem_map_of_injective hρ]
    rw [Value.renamedEntries]
    exact (Forest.ofEntries_cons_eq_ok_iff hs').2 ⟨t.renamed ρ, _, iht ht, ihr hr, rfl⟩

/-! ## Planted nodes -/

/-- The same entries under renamed keys. -/
def Entries.renamed {α : Type} (ρ : String → String) (m : Entries Name α) : Entries Name α :=
  m.map fun entry => (entry.1.map ρ, entry.2)

/-- The same node but for its path, its own name and those of its children. -/
structure Node.Renames (ρ : String → String) (n n' : Node) : Prop where
  kind : n'.kind = n.kind
  visibility : n'.visibility = n.visibility
  parent : n'.parent = n.parent
  children : n'.children = n.children.renamed ρ

namespace Forest

theorem size_renamed (f : Forest) : (f.renamed ρ).size = f.size := by
  induction f with
  | nil => rfl
  | cons _ _ _ _ _ ihc ihr => rw [renamed, size, size, ihc, ihr]

theorem slots_renamed (f : Forest) (start : NodeId) :
    (f.renamed ρ).slots start = (f.slots start).renamed ρ := by
  induction f generalizing start with
  | nil => rfl
  | cons name _ _ children _ _ ihr =>
    rw [renamed, slots, slots, size_renamed, ihr]
    rfl

/-- A renamed forest has its nodes under the same numbers. -/
theorem forall₂_nodes_renamed (f : Forest) (parent : NodeId) (path path' : String)
    (start : NodeId) :
    List.Forall₂ (fun n n' => n'.name = n.name.map ρ ∧ n.Renames ρ n')
      (f.nodes parent path start) ((f.renamed ρ).nodes parent path' start) := by
  induction f generalizing parent path path' start with
  | nil => exact .nil
  | cons name kind visibility children rest ihc ihr =>
    rw [renamed, nodes, nodes, size_renamed]
    exact .cons ⟨rfl, rfl, rfl, rfl, slots_renamed children _⟩ (List.rel_append (ihc ..) (ihr ..))

end Forest

theorem getElem?_getD_of_forall₂ {α β : Type} {R : α → β → Prop} {as : List α} {bs : List β}
    {a : α} {b : β} (h : List.Forall₂ R as bs) (hab : R a b) (k : Nat) :
    R (as[k]?.getD a) (bs[k]?.getD b) := by
  induction h generalizing k with
  | nil => exact hab
  | cons h _ ih =>
    cases k with
    | zero => exact h
    | succ k => exact ih k

namespace Schema

/-- `s'` has the nodes of `s` under the same numbers, those below `root` under renamed keys. -/
structure Renames (s : Schema) (root : Nat) (s' : Schema) (ρ : String → String) : Prop where
  size : s'.size = s.size
  older : ∀ {i : Nat}, i < root → s'.node i = s.node i
  root_name : (s'.node root).name = (s.node root).name
  name : ∀ {i : Nat}, root < i → (s'.node i).name = (s.node i).name.map ρ
  node : ∀ {i : Nat}, root ≤ i → (s.node i).Renames ρ (s'.node i)

variable {s₀ s : Schema} {name : Name} {parent : Option NodeId}

/-- A renamed tree in place of a tree. -/
theorem renames_plant (s₀ : Schema) (t : Tree) (name : Name) (path : String)
    (parent : Option NodeId) :
    (s₀.plant t name path parent).Renames s₀.size (s₀.plant (t.renamed ρ) name path parent) ρ := by
  have hbelow : List.Forall₂ (fun n n' => n'.name = n.name.map ρ ∧ n.Renames ρ n')
      (t.children.nodes s₀.size path (s₀.size + 1))
      ((t.renamed ρ).children.nodes s₀.size path (s₀.size + 1)) :=
    t.children.forall₂_nodes_renamed s₀.size path path (s₀.size + 1)
  have habsent : Node.absent.name = Node.absent.name.map ρ ∧ Node.absent.Renames ρ Node.absent :=
    ⟨rfl, rfl, rfl, rfl, rfl⟩
  have hnode := getElem?_getD_of_forall₂ hbelow habsent
  refine ⟨?size, fun hi => ?older, ?rootName, fun {i} hi => ?name, fun {i} hi => ?node⟩
  case size => rw [size_plant, size_plant, Tree.size, Tree.size, Tree.renamed, Forest.size_renamed]
  case older => rw [node_plant_of_lt hi, node_plant_of_lt hi]
  case rootName => rw [(t.planted_plant ..).node, ((t.renamed ρ).planted_plant ..).node]
  case name =>
    obtain ⟨k, rfl⟩ : ∃ k, i = s₀.size + (k + 1) := ⟨i - s₀.size - 1, by omega⟩
    rw [node_plant_of_le, node_plant_of_le]
    exact (hnode k).1
  case node =>
    obtain ⟨k, rfl⟩ := Nat.exists_eq_add_of_le hi
    rw [node_plant_of_le, node_plant_of_le]
    cases k with
    | zero => exact ⟨rfl, rfl, rfl, t.children.slots_renamed _⟩
    | succ k => exact (hnode k).2

/-- A renamed description is accepted, too, and built under the same numbers. -/
theorem exists_renames (hρ : Function.Injective ρ) {description : Value}
    (hb : s₀.build description name parent = .ok s) :
    ∃ s', s₀.build (description.renamed ρ) name parent = .ok s' ∧ s.Renames s₀.size s' ρ := by
  obtain ⟨t, ht, rfl⟩ := build_eq_ok_iff.1 hb
  have ht' : Tree.ofValue name (s₀.newPath name parent) (description.renamed ρ) =
      .ok (t.renamed ρ) := Tree.ofValue_renamed hρ ht
  exact ⟨_, build_eq_ok_iff.2 ⟨t.renamed ρ, ht', rfl⟩, renames_plant s₀ t name _ parent⟩

end Schema

end DataTree
