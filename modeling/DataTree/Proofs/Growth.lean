import DataTree.Proofs.Inheritance
import DataTree.Proofs.Outline
import DataTree.Proofs.Paths
import DataTree.Proofs.Preorder

/-!
# What a description grows into

An accepted description becomes a tree at the end of the schema. Its nodes in pre-order are those
of the outline (`Tree.realizes_of_ofValue`), each as its own description has it
(`Schema.Realizes`). Visibility is searched upwards from a node, through the tree and on through
what was there before; the same comes down from the parent, one declaration after the other
(`Schema.Passed`).
-/

namespace DataTree

theorem Path.root_of_ne {n : String} (h : n ≠ "") : root (some n) = "/" ++ n := by
  rw [root]
  · rw [child, String.empty_append]
  · exact h

namespace Schema

/-- Node `i` is the node of a description. -/
structure Realizes (s : Schema) (d : Described) (i : NodeId) : Prop where
  name : (s.node i).name = d.name
  path : (s.node i).path = d.path
  kind : ∃ fields, d.value = .map fields ∧ Description.HasKind fields (s.node i).kind
  visibility : ∃ fields, d.value = .map fields ∧
    Description.Declares fields (s.node i).visibility
  children : (s.node i).children.keys = d.value.entries.keys.map some

end Schema

/-! ## Nodes and descriptions in the same order -/

theorem Description.header_eq_ok {name : Name} {path : String} {fields : Entries String Value}
    {k : Kind} {x : Visibility} (h : header name path fields = .ok (k, x)) :
    HasKind fields k ∧ Declares fields x := by
  simp only [header, bind_eq_ok_iff] at h
  obtain ⟨-, -, k', hk, x', hx, h⟩ := h
  rw [kind_eq_ok_iff] at hk
  rw [visibility_eq_ok_iff] at hx
  split at h
  · simp [bind, Except.bind, throw, throwThe, MonadExceptOf.throw] at h
  · cases pure_eq_ok_iff.1 h
    exact ⟨hk, hx⟩

/-- The siblings are those of the entries, and so are the nodes of all that is below them, wherever
they are planted. -/
def Forest.Realizes (f : Forest) (path : String) (m : Entries String Value) : Prop :=
  f.names = m.keys.map some ∧
    ∀ {s : Schema} {root parent start : Nat}, s.Wired root → f.Planted s parent path start →
      root ≤ start → start + f.size ≤ s.size →
      List.Forall₂ s.Realizes (Entries.outline path m) ((f.slots start).values.flatMap s.subtree)

theorem Forest.realizes_nil (path : String) : Forest.nil.Realizes path [] :=
  ⟨rfl, fun _ _ _ _ => .nil⟩

/-- The same for a tree. -/
def Tree.Realizes (t : Tree) (name : Name) (path : String) (v : Value) : Prop :=
  ∀ {s : Schema} {root i : Nat} {parent : Option NodeId}, s.Wired root →
    t.Planted s name path parent i → root ≤ i → i + t.size ≤ s.size →
    List.Forall₂ s.Realizes (v.outline name path) (s.subtree i)

theorem Tree.realizes_of_children {name : Name} {path : String} {fields : Entries String Value}
    {t : Tree} (hh : Description.header name path fields = .ok (t.kind, t.visibility))
    (hc : t.children.Realizes path (Value.map fields).entries) :
    t.Realizes name path (.map fields) := by
  intro s root i parent hw ht hi hlt
  obtain ⟨hk, hx⟩ := Description.header_eq_ok hh
  have hnode := ht.node
  rw [Tree.size] at hlt
  rw [Value.outline_eq, hw.subtree_eq hi (by omega), Schema.children, ht.children_eq]
  refine .cons ⟨?_, ?_, ⟨fields, rfl, ?_⟩, ⟨fields, rfl, ?_⟩, ?_⟩
    (hc.2 hw ht.below (by omega) (by omega))
  · rw [hnode]
  · rw [hnode]
  · rwa [hnode]
  · rwa [hnode]
  · rw [hnode, Forest.keys_slots, hc.1]

theorem Forest.realizes_cons {t : Tree} {f : Forest} {path key : String} {v : Value}
    {m : Entries String Value} (ht : t.Realizes (some key) (Path.child path key) v)
    (hf : f.Realizes path m) :
    (Forest.cons (some key) t.kind t.visibility t.children f).Realizes path ((key, v) :: m) := by
  refine ⟨?_, fun {s root parent start} hw hp hi hlt => ?_⟩
  · rw [names, hf.1]
    rfl
  · obtain ⟨hnode, hbelow, hrest⟩ := hp
    rw [Forest.size] at hlt
    have hsize : t.size = t.children.size + 1 := rfl
    rw [Entries.outline_cons, slots, Entries.values, List.map_cons, List.flatMap_cons]
    exact List.rel_append (ht hw ⟨hnode, hbelow⟩ hi (by omega))
      (hf.2 hw hrest (by omega) (by omega))

theorem Forest.realizes_of_descriptions {path : String} {m : Entries String Value} {f : Forest}
    (h : ∀ e ∈ m, ∀ t, Tree.ofValue (some e.1) (Path.child path e.1) e.2 = .ok t →
      t.Realizes (some e.1) (Path.child path e.1) e.2)
    (hf : Forest.ofDescriptions path m = .ok f) : f.Realizes path m := by
  induction m generalizing f with
  | nil =>
    cases pure_eq_ok_iff.1 hf
    exact Forest.realizes_nil path
  | cons e rest ih =>
    simp only [Forest.ofDescriptions, bind_eq_ok_iff, pure_eq_ok_iff] at hf
    obtain ⟨t, ht, siblings, hs, rfl⟩ := hf
    exact Forest.realizes_cons (h e List.mem_cons_self t ht)
      (ih (fun e he => h e (List.mem_cons_of_mem _ he)) hs)

/-- The nodes of a described tree are those of the outline of its description. -/
theorem Tree.realizes_of_ofValue {name : Name} {path : String} {v : Value} {t : Tree}
    (h : Tree.ofValue name path v = .ok t) : t.Realizes name path v := by
  induction v using Value.induction_entries generalizing name path t with
  | step v ih =>
    obtain ⟨fields, rfl⟩ := Tree.exists_map_of_ofValue h
    obtain ⟨hh, hf⟩ := Tree.ofValue_map_eq_ok_iff.1 h
    rw [Forest.ofFields_eq] at hf
    exact Tree.realizes_of_children hh
      (Forest.realizes_of_descriptions (fun e he _ ht => ih e he ht) hf)

/-! ## Visibility from above -/

namespace Schema

/-- The nodes above `i` come to an end: `i` is a node, and so are its parent, the parent's parent
and so on up to one without. -/
inductive Rooted (s : Schema) : NodeId → Prop
  | intro {i : Nat} : i < s.size → (∀ q, (s.node i).parent = some q → s.Rooted q) → s.Rooted i

theorem Rooted.lt_size {s : Schema} {i : Nat} (h : s.Rooted i) : i < s.size := by
  cases h
  assumption

/-- What grows in a schema has no effect on the nodes that were there. -/
theorem Rooted.writable_plant {s : Schema} {i : Nat} (h : s.Rooted i) (t : Tree) (name : Name)
    (path : String) (parent : Option NodeId) :
    (s.plant t name path parent).writable i = s.writable i := by
  induction h with
  | @intro i hi _ ih =>
    rw [writable_eq, writable_eq s, node_plant_of_lt hi]
    cases hq : (s.node i).parent with
    | none => rfl
    | some q => exact congrArg (Visibility.effective · _) (ih q hq)

/-- What visibility is passed on from `root` down to each node, if `above` reaches the root: every
node passes on what it declares or else what it receives. -/
inductive Passed (s : Schema) (root : NodeId) (above : Bool) : NodeId → Bool → Prop
  | root : Passed s root above root ((s.node root).visibility.effective above)
  | child {i c : NodeId} {b : Bool} : Passed s root above i b → c ∈ s.children i →
      Passed s root above c ((s.node c).visibility.effective b)

theorem Wired.passed_iff {s : Schema} {root i : Nat} (hw : s.Wired root)
    (hi : i ∈ s.subtree root) {b : Bool} :
    s.Passed root ((s.node root).parent.elim true s.writable) i b ↔ b = s.writable i := by
  have hdown : ∀ {j : Nat} {b : Bool},
      s.Passed root ((s.node root).parent.elim true s.writable) j b →
      root ≤ j ∧ b = s.writable j := fun {j b} hj => by
    induction hj with
    | root => exact ⟨Nat.le_refl _, (writable_eq s root).symm⟩
    | @child i c b _ hc ih =>
      obtain ⟨hi, rfl⟩ := ih
      refine ⟨hw.root_le_child hi hc, ?_⟩
      rw [writable_eq s c, hw.child_parent hi hc]
      rfl
  refine ⟨fun hj => (hdown hj).2, ?_⟩
  rintro rfl
  rw [hw.mem_subtree_root_iff] at hi
  obtain ⟨hi, hlt⟩ := hi
  induction i using Nat.strongRecOn with
  | ind i ih =>
    rw [writable_eq]
    rcases Nat.eq_or_lt_of_le hi with rfl | hi
    · exact .root
    · obtain ⟨q, hq, hm⟩ := hw.exists_parent hi hlt
      have hqi := hw.lt_child hq hm
      rw [hw.child_parent hq hm]
      exact .child (ih q hqi hq (by omega)) hm

/-! ## The built tree -/

/-- What `s₀` becomes when a description is built below `parent`. -/
structure Growth (s₀ s : Schema) (v : Value) (name : Name) (parent : Option NodeId) : Prop where
  /-- The nodes of the tree are those of the outline, in the same order. -/
  realizes : List.Forall₂ s.Realizes (v.outline name (s₀.newPath name parent)) (s.subtree s₀.size)
  nodup : (s.subtree s₀.size).Nodup
  /-- There are no other new nodes. -/
  mem_iff : ∀ i : Nat, i ∈ s.subtree s₀.size ↔ s₀.size ≤ i ∧ i < s.size
  old : ∀ i : Nat, i < s₀.size → s.node i = s₀.node i
  root_parent : (s.node s₀.size).parent = parent
  root_path_below : ∀ q, parent = some q →
    (s.node s₀.size).path = (s₀.node q).path ++ "/" ++ name.text
  root_path_alone : ∀ n, parent = none → name = some n → n ≠ "" →
    (s.node s₀.size).path = "/" ++ n
  root_path_empty : parent = none → name = none ∨ name = some "" → (s.node s₀.size).path = ""
  child : ∀ i ∈ s.subtree s₀.size, ∀ key c, (key, c) ∈ (s.node i).children →
    (s.node c).name = key ∧ (s.node c).parent = some i ∧
      (s.node c).path = (s.node i).path ++ "/" ++ key.text
  bare : ∀ i ∈ s.subtree s₀.size, (s.node i).kind = .leaf ∨ (s.node i).kind = .leafref →
    (s.node i).children = []
  /-- The effective visibility is the one that comes down from the parent. -/
  passed : ∀ i ∈ s.subtree s₀.size, ∀ b,
    s.Passed s₀.size (parent.elim true s₀.writable) i b ↔ b = s.writable i

theorem growth_of_build {s₀ s : Schema} {v : Value} {name : Name} {parent : Option NodeId}
    (hp : ∀ q, parent = some q → s₀.Rooted q) (hb : s₀.build v name parent = .ok s) :
    Growth s₀ s v name parent := by
  have hbuilt : s.IsBuilt s₀.size :=
    ⟨s₀, v, name, parent, fun q hq => (hp q hq).lt_size, hb, rfl⟩
  have hw := hbuilt.wired
  obtain ⟨t, ht, rfl⟩ := build_eq_ok_iff.1 hb
  have hplanted := t.planted_plant s₀ name (s₀.newPath name parent) parent
  have hnode := hplanted.node
  have hsize := s₀.size_plant t name (s₀.newPath name parent) parent
  have habove : parent.elim true (s₀.plant t name (s₀.newPath name parent) parent).writable =
      parent.elim true s₀.writable := by
    cases parent with
    | none => rfl
    | some q => exact (hp q rfl).writable_plant t name _ _
  have hmem : ∀ {i : Nat}, i ∈ (s₀.plant t name (s₀.newPath name parent) parent).subtree s₀.size →
      s₀.size ≤ i := fun hi => (hw.mem_subtree_root_iff.1 hi).1
  exact {
    realizes := Tree.realizes_of_ofValue ht hw hplanted (Nat.le_refl _) (Nat.le_of_eq hsize.symm)
    nodup := hw.nodup_subtree (Nat.le_refl _) hw.root_lt_size
    mem_iff := fun _ => hw.mem_subtree_root_iff
    old := fun _ hi => node_plant_of_lt hi
    root_parent := by rw [hnode]
    root_path_below := by
      rintro q rfl
      rw [hnode]
      rfl
    root_path_alone := by
      rintro n rfl rfl hn
      rw [hnode]
      exact Path.root_of_ne hn
    root_path_empty := by
      rintro rfl (rfl | rfl) <;> rw [hnode] <;> rfl
    child := fun i hi key c hc => by
      have hkey := hw.key_eq (hmem hi) hc
      have hc := Entries.mem_values_of_mem hc
      refine ⟨hkey.symm, hw.child_parent (hmem hi) hc, ?_⟩
      rw [hkey]
      exact hbuilt.path_child (hmem hi) hc
    bare := fun i hi hk => by
      have hdir : ((s₀.plant t name (s₀.newPath name parent) parent).node i).kind.isDirectory =
          false := by
        rcases hk with hk | hk <;> rw [hk] <;> rfl
      exact List.map_eq_nil_iff.1 (hw.bare (hmem hi) hdir)
    passed := fun i hi b => by
      rw [← hw.passed_iff hi, hnode, habove] }

/-- Counters for the read-only side of a port, with a leaf that makes itself writable and a list
that is passed through. -/
def countersDescription : Value :=
  .map [("config", .null), ("children", .map [
    ("reset", .map [("config", .bool true)]),
    ("queue", .map [("kind", .str "list"), ("children", .map [
      ("peer", .map [("type", .str "leafref")]),
      ("limit", .map [("config", .str "writable")])])])])]

theorem portSchema_rooted_state : portSchema.Rooted 4 := by
  refine .intro (by decide) fun q hq => ?_
  cases (show (portSchema.node 4).parent = some 0 from rfl).symm.trans hq
  exact .intro (by decide) nofun

theorem growth_countersDescription : ∃ s : Schema,
    portSchema.build countersDescription (some "counters") (some 4) = .ok s ∧
    (∀ q, some 4 = some q → portSchema.Rooted q) ∧ portSchema.writable 4 = false ∧
    s.subtree 10 = [10, 11, 12, 13, 14] ∧
    [10, 11, 12, 13, 14].map s.writable = [false, true, false, false, true] ∧
    Growth portSchema s countersDescription (some "counters") (some 4) := by
  have hp : ∀ q, some 4 = some q → portSchema.Rooted q := fun q hq =>
    Option.some.inj hq ▸ portSchema_rooted_state
  exact ⟨_, rfl, hp, rfl, rfl, rfl, growth_of_build hp rfl⟩

end Schema

end DataTree
