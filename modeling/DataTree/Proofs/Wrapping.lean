import DataTree.Proofs.Preorder

/-!
# Wrapped trees

A wrapping is a forest in which some choices and cases are marked as inserted, at any depth:
`w.after` is the forest with them and `w.before` the one without, where what is inside an inserted
node stands in its place. `w.pairs start start'` are the numbers that the other nodes have before
and after, and `w.inserted start'` those of the inserted ones; together they are all
(`map_fst_pairs`, `pairs_inserted_perm`).

Where both forests are planted, the same nodes stand for the siblings (`Planted.forall₂_frontier`).
So they stand for the children of each node that was there before (`Planted.kept`).
-/

namespace DataTree

theorem perm_append_append {α : Type} (as bs cs ds : List α) :
    (as ++ bs ++ (cs ++ ds)).Perm (as ++ cs ++ (bs ++ ds)) := by
  rw [List.append_assoc, List.append_assoc]
  exact (List.perm_append_comm_assoc bs cs ds).append_left as

/-! ## Siblings after siblings -/

namespace Forest

def append : Forest → Forest → Forest
  | nil, g => g
  | cons name kind visibility children rest, g =>
    cons name kind visibility children (rest.append g)

theorem size_append (f g : Forest) : (f.append g).size = f.size + g.size := by
  induction f with
  | nil => exact (Nat.zero_add _).symm
  | cons _ _ _ children rest _ ih =>
    rw [append, size, size, ih]
    omega

theorem slots_append (f g : Forest) (start : Nat) :
    (f.append g).slots start = f.slots start ++ g.slots (start + f.size) := by
  induction f generalizing start with
  | nil => rfl
  | cons name _ _ children rest _ ih =>
    rw [append, slots, slots, ih, List.cons_append, size,
      show start + children.size + 1 + rest.size = start + (children.size + rest.size + 1) by omega]

theorem planted_append_iff {s : Schema} {f g : Forest} {parent : NodeId} {path : String}
    {start : Nat} : (f.append g).Planted s parent path start ↔
      f.Planted s parent path start ∧ g.Planted s parent path (start + f.size) := by
  induction f generalizing start with
  | nil => exact (iff_of_eq (true_and _)).symm
  | cons name _ _ children rest _ ih =>
    rw [append, Planted, Planted, ih, size, and_assoc, and_assoc,
      show start + children.size + 1 + rest.size = start + (children.size + rest.size + 1) by omega]

end Forest

/-! ## Wrappings -/

inductive Wrapping where
  | nil
  | keep (name : Name) (kind : Kind) (visibility : Visibility) (children rest : Wrapping)
  /-- A choice or case that declares no visibility, around the siblings inside. -/
  | insert (name : Name) (kind : Kind) (hk : kind.isWrapper = true) (inside rest : Wrapping)

namespace Wrapping

def before : Wrapping → Forest
  | nil => .nil
  | keep name kind visibility children rest =>
    .cons name kind visibility children.before rest.before
  | insert _ _ _ inside rest => inside.before.append rest.before

def after : Wrapping → Forest
  | nil => .nil
  | keep name kind visibility children rest =>
    .cons name kind visibility children.after rest.after
  | insert name kind _ inside rest => .cons name kind .inherited inside.after rest.after

def pairs (start start' : NodeId) : Wrapping → List (NodeId × NodeId)
  | nil => []
  | keep _ _ _ children rest =>
    (start, start') :: (children.pairs (start + 1) (start' + 1) ++
      rest.pairs (start + children.before.size + 1) (start' + children.after.size + 1))
  | insert _ _ _ inside rest =>
    inside.pairs start (start' + 1) ++
      rest.pairs (start + inside.before.size) (start' + inside.after.size + 1)

def inserted (start' : NodeId) : Wrapping → List NodeId
  | nil => []
  | keep _ _ _ children rest =>
    children.inserted (start' + 1) ++ rest.inserted (start' + children.after.size + 1)
  | insert _ _ _ inside rest =>
    start' :: (inside.inserted (start' + 1) ++ rest.inserted (start' + inside.after.size + 1))

/-! ## Numbers before and after -/

/-- Before, the numbers are those of all nodes, in order. -/
theorem map_fst_pairs (w : Wrapping) (start start' : Nat) :
    (w.pairs start start').map Prod.fst = List.range' start w.before.size := by
  induction w generalizing start start' with
  | nil => rfl
  | keep name kind visibility children rest ihc ihr =>
    rw [pairs, List.map_cons, List.map_append, ihc, ihr, before, Forest.size, List.range'_succ,
      ← List.range'_append_1, show start + children.before.size + 1 =
        start + 1 + children.before.size by omega]
  | insert name kind hk inside rest ihi ihr =>
    rw [pairs, List.map_append, ihi, ihr, before, Forest.size_append, ← List.range'_append_1]

/-- After, they come in the same order. -/
theorem map_snd_pairs_sublist (w : Wrapping) (start start' : Nat) :
    ((w.pairs start start').map Prod.snd).Sublist (List.range' start' w.after.size) := by
  induction w generalizing start start' with
  | nil => exact .slnil
  | keep name kind visibility children rest ihc ihr =>
    rw [pairs, List.map_cons, List.map_append, after, Forest.size, List.range'_succ,
      ← List.range'_append_1, show start' + 1 + children.after.size =
        start' + children.after.size + 1 by omega]
    exact ((ihc _ _).append (ihr _ _)).cons_cons _
  | insert name kind hk inside rest ihi ihr =>
    rw [pairs, List.map_append, after, Forest.size, List.range'_succ, ← List.range'_append_1,
      show start' + 1 + inside.after.size = start' + inside.after.size + 1 by omega]
    exact ((ihi _ _).append (ihr _ _)).cons _

/-- After, the numbers that are left over are those of the inserted nodes. -/
theorem pairs_inserted_perm (w : Wrapping) (start start' : Nat) :
    ((w.pairs start start').map Prod.snd ++ w.inserted start').Perm
      (List.range' start' w.after.size) := by
  induction w generalizing start start' with
  | nil => exact .refl _
  | keep name kind visibility children rest ihc ihr =>
    rw [pairs, inserted, after, Forest.size, List.range'_succ, ← List.range'_append_1,
      show start' + 1 + children.after.size = start' + children.after.size + 1 by omega,
      List.map_cons, List.map_append, List.cons_append]
    refine .cons _ ((perm_append_append ..).trans ((ihc _ _).append (ihr _ _)))
  | insert name kind hk inside rest ihi ihr =>
    rw [pairs, inserted, after, Forest.size, List.range'_succ, ← List.range'_append_1,
      show start' + 1 + inside.after.size = start' + inside.after.size + 1 by omega,
      List.map_append]
    exact List.perm_middle.trans
      (.cons _ ((perm_append_append ..).trans ((ihi _ _).append (ihr _ _))))

end Wrapping

/-! ## Planted numbers -/

section Subtree

variable {s : Schema} {root start : Nat} {parent : NodeId} {path : String}

/-- Planted siblings, with what is below them, have their numbers in the order of declaration. -/
theorem Forest.Planted.flatMap_subtree {f : Forest} (h : f.Planted s parent path start)
    (hw : s.Wired root) (hle : root ≤ start) (hlt : start + f.size ≤ s.size) :
    (f.slots start).values.flatMap s.subtree = List.range' start f.size := by
  induction f generalizing parent path start with
  | nil => rfl
  | cons name kind visibility children rest ihc ihr =>
    obtain ⟨hn, hc, hr⟩ := h
    rw [size] at hlt
    have hbelow := ihc hc (by omega) (by omega)
    have hrest := ihr hr (by omega) (by omega)
    have hself : s.subtree start = start :: List.range' (start + 1) children.size := by
      rw [hw.subtree_eq hle (by omega), Schema.children, hn, hbelow]
    rw [slots, Entries.values, List.map_cons, List.flatMap_cons, hself]
    rw [Entries.values] at hrest
    rw [hrest, size, List.range'_succ, ← List.range'_append_1,
      show start + 1 + children.size = start + children.size + 1 by omega, List.cons_append]

theorem Tree.Planted.subtree_eq {t : Tree} {name : Name} {parent : Option NodeId}
    (h : t.Planted s name path parent root) (hw : s.Wired root) (hs : s.size = root + t.size) :
    s.subtree root = List.range' root t.size := by
  rw [hw.subtree_eq (Nat.le_refl _) hw.root_lt_size, Schema.children, h.node, Tree.size,
    List.range'_succ]
  rw [Tree.size] at hs
  exact congrArg _ (h.below.flatMap_subtree hw (by omega) (by omega))

end Subtree

namespace Wrapping

/-! ## Before and after in two schemas -/

/-- Both forests are planted in wired trees, with room for all their nodes. -/
structure Planted (s s' : Schema) (root root' start start' : Nat) (w : Wrapping) : Prop where
  wired : s.Wired root
  wired' : s'.Wired root'
  before : ∃ parent path, w.before.Planted s parent path start
  after : ∃ parent path, w.after.Planted s' parent path start'
  range : root ≤ start ∧ start + w.before.size ≤ s.size
  range' : root' ≤ start' ∧ start' + w.after.size ≤ s'.size

variable {s s' : Schema} {root root' start start' : Nat} {R : Nat → Nat → Prop} {w : Wrapping}

namespace Planted

/-- What is planted if the first sibling is kept. -/
theorem of_keep {name : Name} {kind : Kind} {visibility : Visibility} {children rest : Wrapping}
    (h : (keep name kind visibility children rest).Planted s s' root root' start start') :
    (start < s.size ∧ start' < s'.size) ∧
      (∃ path parent, s.node start =
        ⟨name, kind, visibility, path, children.before.slots (start + 1), parent⟩) ∧
      (∃ path parent, s'.node start' =
        ⟨name, kind, visibility, path, children.after.slots (start' + 1), parent⟩) ∧
      children.Planted s s' root root' (start + 1) (start' + 1) ∧
      rest.Planted s s' root root' (start + children.before.size + 1)
        (start' + children.after.size + 1) := by
  obtain ⟨_, _, hn, hc, hr⟩ := h.before
  obtain ⟨_, _, hn', hc', hr'⟩ := h.after
  have hrange := h.range
  have hrange' := h.range'
  simp only [Wrapping.before, Wrapping.after, Forest.size] at hrange hrange'
  exact ⟨⟨by omega, by omega⟩, ⟨_, _, hn⟩, ⟨_, _, hn'⟩,
    ⟨h.wired, h.wired', ⟨_, _, hc⟩, ⟨_, _, hc'⟩, by omega, by omega⟩,
    ⟨h.wired, h.wired', ⟨_, _, hr⟩, ⟨_, _, hr'⟩, by omega, by omega⟩⟩

/-- What is planted if the first sibling is inserted. -/
theorem of_insert {name : Name} {kind : Kind} {hk : kind.isWrapper = true}
    {inside rest : Wrapping}
    (h : (insert name kind hk inside rest).Planted s s' root root' start start') :
    start' < s'.size ∧
      (∃ path parent, s'.node start' =
        ⟨name, kind, .inherited, path, inside.after.slots (start' + 1), parent⟩) ∧
      inside.Planted s s' root root' start (start' + 1) ∧
      rest.Planted s s' root root' (start + inside.before.size)
        (start' + inside.after.size + 1) := by
  obtain ⟨_, _, hb⟩ := h.before
  obtain ⟨hi, hr⟩ := Forest.planted_append_iff.1 hb
  obtain ⟨_, _, hn', hi', hr'⟩ := h.after
  have hrange := h.range
  have hrange' := h.range'
  simp only [Wrapping.before, Wrapping.after, Forest.size, Forest.size_append] at hrange hrange'
  exact ⟨by omega, ⟨_, _, hn'⟩,
    ⟨h.wired, h.wired', ⟨_, _, hi⟩, ⟨_, _, hi'⟩, by omega, by omega⟩,
    ⟨h.wired, h.wired', ⟨_, _, hr⟩, ⟨_, _, hr'⟩, by omega, by omega⟩⟩

/-! ## What stands for siblings and for children -/

/-- The same nodes stand for the siblings before and after. -/
theorem forall₂_frontier (h : w.Planted s s' root root' start start')
    (hR : ∀ i i', (i, i') ∈ w.pairs start start' → R i i') :
    List.Forall₂ R ((w.before.slots start).values.flatMap s.frontier)
      ((w.after.slots start').values.flatMap s'.frontier) := by
  induction w generalizing start start' with
  | nil => exact .nil
  | keep name kind visibility children rest ihc ihr =>
    obtain ⟨⟨hlt, hlt'⟩, ⟨_, _, hn⟩, ⟨_, _, hn'⟩, hc, hr⟩ := h.of_keep
    simp only [pairs, List.mem_cons, List.mem_append] at hR
    have hchildren := ihc hc fun i i' hi => hR i i' (.inr (.inl hi))
    have hrest := ihr hr fun i i' hi => hR i i' (.inr (.inr hi))
    have hself : List.Forall₂ R (s.frontier start) (s'.frontier start') := by
      rw [h.wired.frontier_eq h.range.1 hlt, h.wired'.frontier_eq h.range'.1 hlt',
        Schema.members, Schema.members, Schema.children, Schema.children, hn, hn']
      dsimp only
      split
      · exact hchildren
      · exact .cons (hR _ _ (.inl rfl)) .nil
    exact List.rel_append hself hrest
  | insert name kind hk inside rest ihi ihr =>
    obtain ⟨hlt', ⟨_, _, hn'⟩, hi, hr⟩ := h.of_insert
    simp only [pairs, List.mem_append] at hR
    have hinside := ihi hi fun i i' hi => hR i i' (.inl hi)
    have hrest := ihr hr fun i i' hi => hR i i' (.inr hi)
    have hwrap : s'.frontier start' =
        (inside.after.slots (start' + 1)).values.flatMap s'.frontier := by
      rw [h.wired'.frontier_of_wrapper h.range'.1 hlt' (by rw [hn']; exact hk), Schema.members,
        Schema.children, hn']
    rw [Wrapping.before, Forest.slots_append, Entries.values, List.map_append,
      List.flatMap_append]
    exact List.rel_append (hwrap ▸ hinside) hrest

end Planted

/-- A node that was there before is the same after, and so is what stands for its children. -/
structure Kept (s s' : Schema) (R : Nat → Nat → Prop) (i i' : Nat) : Prop where
  name : (s'.node i').name = (s.node i).name
  kind : (s'.node i').kind = (s.node i).kind
  visibility : (s'.node i').visibility = (s.node i).visibility
  members : List.Forall₂ R (s.members i) (s'.members i')

theorem Planted.kept (h : w.Planted s s' root root' start start')
    (hR : ∀ i i', (i, i') ∈ w.pairs start start' → R i i') {i i' : Nat}
    (hi : (i, i') ∈ w.pairs start start') : Kept s s' R i i' := by
  induction w generalizing start start' with
  | nil => cases hi
  | keep name kind visibility children rest ihc ihr =>
    obtain ⟨-, ⟨_, _, hn⟩, ⟨_, _, hn'⟩, hc, hr⟩ := h.of_keep
    simp only [pairs, List.mem_cons, List.mem_append] at hi hR
    have hRc : ∀ j j', (j, j') ∈ children.pairs (start + 1) (start' + 1) → R j j' :=
      fun j j' hj => hR j j' (.inr (.inl hj))
    rcases hi with hi | hi | hi
    · cases hi
      refine ⟨by rw [hn, hn'], by rw [hn, hn'], by rw [hn, hn'], ?_⟩
      rw [Schema.members, Schema.members, Schema.children, Schema.children, hn, hn']
      exact hc.forall₂_frontier hRc
    · exact ihc hc hRc hi
    · exact ihr hr (fun j j' hj => hR j j' (.inr (.inr hj))) hi
  | insert name kind hk inside rest ihi ihr =>
    obtain ⟨-, -, hin, hr⟩ := h.of_insert
    simp only [pairs, List.mem_append] at hi hR
    rcases hi with hi | hi
    · exact ihi hin (fun j j' hj => hR j j' (.inl hj)) hi
    · exact ihr hr (fun j j' hj => hR j j' (.inr hj)) hi

/-- The inserted nodes are choices and cases that declare no visibility. -/
theorem Planted.wrapper_of_mem_inserted (h : w.Planted s s' root root' start start') {j : Nat}
    (hj : j ∈ w.inserted start') :
    (s'.node j).kind.isWrapper = true ∧ (s'.node j).visibility = .inherited := by
  induction w generalizing start start' with
  | nil => cases hj
  | keep name kind visibility children rest ihc ihr =>
    obtain ⟨-, -, -, hc, hr⟩ := h.of_keep
    rcases List.mem_append.1 hj with hj | hj
    · exact ihc hc hj
    · exact ihr hr hj
  | insert name kind hk inside rest ihi ihr =>
    obtain ⟨-, ⟨_, _, hn⟩, hi, hr⟩ := h.of_insert
    rcases List.mem_cons.1 hj with rfl | hj
    · rw [hn]
      exact ⟨hk, rfl⟩
    · rcases List.mem_append.1 hj with hj | hj
      · exact ihi hi hj
      · exact ihr hr hj

end Wrapping

end DataTree
