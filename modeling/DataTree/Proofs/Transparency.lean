import DataTree.Proofs.Congruence
import DataTree.Proofs.Describable
import DataTree.Proofs.Uncompressed
import DataTree.Proofs.Wrapping

/-!
# Choices and cases are transparent

Without compression, choices and cases inserted into a tree, around any siblings at any depth, do
not show: each node from before has the children that it had, in the same order and with the same
duplicates on record, and walks from it go through the same nodes (`Schema.build_wrapped`).

All that counts is what stands for the children of a node. So the argument is about any relation of
nodes such that related nodes stand for the children of related nodes (`Wrapping.Kept`).
-/

namespace DataTree

/-- The tree with what is inserted into the forest below its root. -/
def Tree.wrapped (t : Tree) (w : Wrapping) : Tree :=
  ⟨t.kind, t.visibility, w.after⟩

namespace Wrapping

/-- The numbers of all nodes before and after, the root's included. -/
def allPairs (w : Wrapping) (root : NodeId) : List (NodeId × NodeId) :=
  (root, root) :: w.pairs (root + 1) (root + 1)

/-- `n'` is after what `n` is before. -/
def Partners (w : Wrapping) (root : NodeId) (n n' : NodeId) : Prop :=
  (n, n') ∈ w.allPairs root

end Wrapping

/-- What `w` inserts into the tree at `root` in `s` does not show in the wrapped one in `s'`. The
partners of the nodes are all nodes of the wrapped tree but the inserted ones, and in the order of
declaration, too. -/
structure Schema.Transparent (s s' : Schema) (root : NodeId) (w : Wrapping) : Prop where
  all_before : (w.allPairs root).map Prod.fst = s.subtree root
  order_after : ((w.allPairs root).map Prod.snd).Sublist (s'.subtree root)
  all_after : ((w.allPairs root).map Prod.snd ++ w.inserted (root + 1)).Perm (s'.subtree root)
  inserted : ∀ j ∈ w.inserted (root + 1),
    (s'.node j).kind.isWrapper = true ∧ (s'.node j).visibility = .inherited ∧
      (s'.frontier j).Nodup ∧ (s'.frontier j).Sublist (s'.subtree j) ∧
      ∀ x, x ∈ s'.frontier j ↔ s'.Exposes j x
  node : ∀ {n n' : NodeId}, w.Partners root n n' → (s'.node n').name = (s.node n).name ∧
    (s'.node n').kind = (s.node n).kind ∧ (s'.node n').visibility = (s.node n).visibility
  children : ∀ {n n' : NodeId}, w.Partners root n n' →
    Entries.Mirrored id (w.Partners root) (s.resolve .uncompressed n).children
      (s'.resolve .uncompressed n').children
  record : ∀ {n n' : NodeId}, w.Partners root n n' →
    List.Forall₂ (fun d d' => ∃ x x', w.Partners root x x' ∧ d = Collector.duplicate s x ∧
      d' = Collector.duplicate s' x') (s.resolve .uncompressed n).defects
      (s'.resolve .uncompressed n').defects
  walk : ∀ {n n' : NodeId}, w.Partners root n n' →
    List.Forall₂ (Visit.Mirrored s s' (w.Partners root))
        ((Walk.start .uncompressed n).visits s) ((Walk.start .uncompressed n').visits s') ∧
      ∀ count, List.Forall₂ (Visit.Mirrored s s' (w.Partners root))
        ((Walk.start .uncompressed n).take s count).shown
        ((Walk.start .uncompressed n').take s' count).shown

variable {s s' : Schema} {root root' n n' : Nat} {R : Nat → Nat → Prop}

/-! ## Kept nodes -/

namespace Wrapping

section Kept

variable (hk : ∀ {i i' : Nat}, R i i' → Kept s s' R i i')
include hk

/-- Related nodes are resolved alike. -/
theorem mirrored_resolve (hr : R n n') :
    ChildSet.Mirrored s s' id (s.Counterparts s' id R) (s.resolve .uncompressed n)
      (s'.resolve .uncompressed n') := by
  have hoffers : List.Forall₂ (Offer.Alike (s.Counterparts s' id R))
      ((s.members n).map .plain) ((s'.members n').map .plain) := by
    rw [List.forall₂_map_left_iff, List.forall₂_map_right_iff]
    exact (hk hr).members.imp fun x x' hx => .plain ⟨hx, (hk hx).name⟩
  have hc := List.rel_foldl (fun _ _ hc _ _ ho => hc.takeWith Function.injective_id .tolerant ho)
    Collector.Mirrored.empty hoffers
  rw [Schema.resolve_uncompressed, Schema.resolve_uncompressed]
  exact ⟨hc.children, hc.defects⟩

/-- There are no defects but duplicates, and these are of related nodes. -/
theorem forall₂_defects (hr : R n n') :
    List.Forall₂ (fun d d' => ∃ x x', R x x' ∧ d = Collector.duplicate s x ∧
      d' = Collector.duplicate s' x') (s.resolve .uncompressed n).defects
      (s'.resolve .uncompressed n').defects := by
  have hform : ∀ d ∈ (s.resolve .uncompressed n).defects, d.form = .duplicate := fun d hd => by
    rw [Schema.defects_uncompressed] at hd
    obtain ⟨x, -, rfl⟩ := List.mem_map.1 hd
    rfl
  have hboth := (List.forall₂_and_left _ _).2 ⟨hform, (mirrored_resolve hk hr).defects⟩
  refine hboth.imp fun d d' ⟨hd, halike⟩ => ?_
  cases halike with
  | duplicate hx => exact ⟨_, _, hx.related, rfl, rfl⟩
  | nestedPair => cases hd

theorem forall₂_entityChildren (hr : R n n') :
    List.Forall₂ R (s.entityChildren .uncompressed n) (s'.entityChildren .uncompressed n') := by
  have hchildren := (mirrored_resolve hk hr).forall₂_orderedChildren
    (Schema.nodup_keys_resolve .uncompressed n)
  refine forall₂_filter (hchildren.imp fun c c' hc => hc.related) fun c c' hcc => ?_
  rw [(hk hcc).kind]

/-- Walks from related nodes go through related nodes. -/
theorem forall₂_visits (hw : s.Wired root) (hw' : s'.Wired root')
    (hrange : ∀ {i i' : Nat}, R i i' → (root ≤ i ∧ i < s.size) ∧ root' ≤ i' ∧ i' < s'.size)
    (hr : R n n') :
    List.Forall₂ (Visit.Mirrored s s' R) ((Walk.start .uncompressed n).visits s)
        ((Walk.start .uncompressed n').visits s') ∧
      ∀ count, List.Forall₂ (Visit.Mirrored s s' R)
        ((Walk.start .uncompressed n).take s count).shown
        ((Walk.start .uncompressed n').take s' count).shown := by
  obtain ⟨⟨hn, hlt⟩, hn', hlt'⟩ := hrange hr
  have hvisits : ∀ {is is' : List NodeId}, List.Forall₂ R is is' →
      List.Forall₂ (Visit.Mirrored s s' R) (is.map (s.visit .uncompressed))
        (is'.map (s'.visit .uncompressed)) := fun his => by
    rw [List.forall₂_map_left_iff, List.forall₂_map_right_iff]
    exact his.imp fun i i' hi => ⟨hi, mirrored_resolve hk hi⟩
  have hentities : List.Forall₂ R (s.entities .uncompressed n) (s'.entities .uncompressed n') :=
    hw.forall₂_entities hw' hrange hr fun _ hi => forall₂_entityChildren hk hi
  constructor
  · rw [hw.visits_eq _ hn hlt, hw'.visits_eq _ hn' hlt']
    exact hvisits hentities
  · intro count
    rw [hw.take_eq count (Walk.within_start _ hn hlt),
      hw'.take_eq count (Walk.within_start _ hn' hlt'), Walk.remaining_start, Walk.remaining_start]
    exact hvisits (List.forall₂_take count hentities)

end Kept

/-! ## Partners -/

variable {w : Wrapping}

theorem map_fst_allPairs (w : Wrapping) (root : Nat) :
    (w.allPairs root).map Prod.fst = List.range' root (w.before.size + 1) := by
  rw [allPairs, List.map_cons, map_fst_pairs, List.range'_succ]

theorem map_snd_allPairs_sublist (w : Wrapping) (root : Nat) :
    ((w.allPairs root).map Prod.snd).Sublist (List.range' root (w.after.size + 1)) := by
  rw [allPairs, List.map_cons, List.range'_succ]
  exact (w.map_snd_pairs_sublist _ _).cons_cons root

theorem allPairs_inserted_perm (w : Wrapping) (root : Nat) :
    ((w.allPairs root).map Prod.snd ++ w.inserted (root + 1)).Perm
      (List.range' root (w.after.size + 1)) := by
  rw [allPairs, List.map_cons, List.range'_succ, List.cons_append]
  exact (w.pairs_inserted_perm _ _).cons root

theorem Partners.range (h : w.Partners root n n') :
    (root ≤ n ∧ n < root + (w.before.size + 1)) ∧ root ≤ n' ∧
      n' < root + (w.after.size + 1) := by
  have hfst := List.mem_map_of_mem (f := Prod.fst) h
  have hsnd := (w.map_snd_allPairs_sublist root).subset (List.mem_map_of_mem (f := Prod.snd) h)
  rw [map_fst_allPairs] at hfst
  exact ⟨List.mem_range'_1.1 hfst, List.mem_range'_1.1 hsnd⟩

end Wrapping

/-! ## Wrapped trees -/

namespace Schema

section Plant

variable {t : Tree} {w : Wrapping} {name : Name} {path : String} {parent : Option NodeId}
variable (hb : w.before = t.children) (h : t.Planted s name path parent root)
variable (h' : (t.wrapped w).Planted s' name path parent root)
include hb h h'

theorem kept_wrapped (hp : w.Planted s s' root root (root + 1) (root + 1)) {i i' : Nat}
    (hi : w.Partners root i i') : Wrapping.Kept s s' (w.Partners root) i i' := by
  have hR : ∀ j j', (j, j') ∈ w.pairs (root + 1) (root + 1) → w.Partners root j j' :=
    fun j j' hj => List.mem_cons_of_mem _ hj
  rcases List.mem_cons.1 hi with hi | hi
  · cases hi
    refine ⟨by rw [h.node, h'.node], by rw [h.node, h'.node]; rfl, by rw [h.node, h'.node]; rfl, ?_⟩
    rw [members, members, children, children, h.node, h'.node, ← hb]
    exact hp.forall₂_frontier hR
  · exact hp.kept hR hi

/-- A tree and the wrapped one, each planted last in its schema. -/
theorem transparent_wrapped (hw : s.Wired root) (hw' : s'.Wired root)
    (hs : s.size = root + t.size) (hs' : s'.size = root + (t.wrapped w).size) :
    s.Transparent s' root w := by
  have hsub := h.subtree_eq hw hs
  have hsub' := h'.subtree_eq hw' hs'
  have hsize : t.size = w.before.size + 1 := by rw [Tree.size, hb]
  have hsize' : (t.wrapped w).size = w.after.size + 1 := rfl
  rw [hsize] at hs hsub
  rw [hsize'] at hs' hsub'
  have hp : w.Planted s s' root root (root + 1) (root + 1) :=
    ⟨hw, hw', ⟨_, _, hb ▸ h.below⟩, ⟨_, _, h'.below⟩, by omega, by omega⟩
  have hk : ∀ {i i' : Nat}, w.Partners root i i' → Wrapping.Kept s s' (w.Partners root) i i' :=
    kept_wrapped hb h h' hp
  exact {
    all_before := by rw [hsub, w.map_fst_allPairs]
    order_after := by
      rw [hsub']
      exact w.map_snd_allPairs_sublist root
    all_after := by
      rw [hsub']
      exact w.allPairs_inserted_perm root
    inserted := fun j hj => by
      obtain ⟨hwrap, hv⟩ := hp.wrapper_of_mem_inserted hj
      have hmem := (w.allPairs_inserted_perm root).subset (List.mem_append_right _ hj)
      obtain ⟨hle, hlt⟩ := List.mem_range'_1.1 hmem
      rw [← hs'] at hlt
      exact ⟨hwrap, hv, hw'.nodup_frontier hle hlt, hw'.frontier_sublist_subtree hle hlt,
        fun x => hw'.mem_frontier_iff hle hlt⟩
    node := fun hi => ⟨(hk hi).name, (hk hi).kind, (hk hi).visibility⟩
    children := fun hi => (Wrapping.mirrored_resolve hk hi).children.imp
      fun _ _ he => ⟨he.1, he.2.related⟩
    record := fun hi => Wrapping.forall₂_defects hk hi
    walk := fun hi => Wrapping.forall₂_visits hk hw hw'
      (fun hi => by rw [hs, hs']; exact hi.range) hi }

end Plant

/-- Choices and cases that are inserted into a built tree are transparent without compression. -/
theorem build_wrapped {s₀ : Schema} {description : Value} {name : Name} {parent : Option NodeId}
    {t : Tree} {w : Wrapping} (hp : ∀ q : Nat, parent = some q → q < s₀.size)
    (hb : s₀.build description name parent = .ok s)
    (ht : Tree.ofValue name (s₀.newPath name parent) description = .ok t)
    (hw : w.before = t.children) (hwf : (t.wrapped w).WellFormed) :
    ∃ description' s', s₀.build description' name parent = .ok s' ∧
      Tree.ofValue name (s₀.newPath name parent) description' = .ok (t.wrapped w) ∧
      s.Transparent s' s₀.size w := by
  obtain ⟨_, ht', rfl⟩ := build_eq_ok_iff.1 hb
  cases ht'.symm.trans ht
  have hplanted := t.planted_plant s₀ name (s₀.newPath name parent) parent
  have hplanted' := (t.wrapped w).planted_plant s₀ name (s₀.newPath name parent) parent
  have hsize := s₀.size_plant t name (s₀.newPath name parent) parent
  have hsize' := s₀.size_plant (t.wrapped w) name (s₀.newPath name parent) parent
  have hwired := hplanted.wired (Tree.wellFormed_of_ofValue ht) hsize hp
  have hwired' := hplanted'.wired hwf hsize' hp
  exact ⟨_, _, build_description hwf s₀ name parent, Tree.ofValue_description hwf name _,
    transparent_wrapped hw hplanted hplanted' hwired hwired' hsize hsize'⟩

/-- The bay with choices and cases around a leaf, around nothing, and around a container. -/
def bayWrapping : Wrapping :=
  .insert (some "outer") .choice rfl
    (.insert (some "inner") .case rfl (.keep (some "slot") .leaf .inherited .nil .nil) .nil)
    (.keep (some "pick") .choice .inherited
      (.keep (some "slot") .container .inherited
        (.insert (some "void") .case rfl .nil
          (.keep (some "id") .leaf .inherited .nil
            (.keep (some "alt") .choice .inherited
              (.keep (some "id") .leaf .inherited .nil .nil) .nil)))
        (.keep (some "spare") .leaf .inherited .nil .nil))
      (.insert (some "around") .choice rfl
        (.keep (some "box") .container .inherited
          (.keep (some "id") .leaf .inherited .nil
            (.keep (some "alt") .choice .inherited
              (.keep (some "id") .leaf .inherited .nil .nil) .nil)) .nil) .nil))

def bayTree : Tree :=
  ⟨.container, .inherited, bayWrapping.before⟩

theorem build_wrapped_bayDescription :
    empty.build bayDescription (some "bay") none = .ok baySchema ∧
      Tree.ofValue (some "bay") (empty.newPath (some "bay") none) bayDescription = .ok bayTree ∧
      bayWrapping.before = bayTree.children ∧ (bayTree.wrapped bayWrapping).WellFormed ∧
      ∃ description' s', empty.build description' (some "bay") none = .ok s' ∧
        Tree.ofValue (some "bay") (empty.newPath (some "bay") none) description' =
          .ok (bayTree.wrapped bayWrapping) ∧
        baySchema.Transparent s' 0 bayWrapping := by
  have hb : empty.build bayDescription (some "bay") none = .ok baySchema := rfl
  have ht : Tree.ofValue (some "bay") (empty.newPath (some "bay") none) bayDescription =
      .ok bayTree := rfl
  have hwf : (bayTree.wrapped bayWrapping).WellFormed :=
    ⟨by decide, by simp [Tree.wrapped, bayWrapping, Wrapping.after, Forest.WellFormed, Forest.names,
      Kind.isDirectory, Kind.isEntity, Kind.isWrapper]⟩
  have hp : ∀ q : Nat, (none : Option NodeId) = some q → q < empty.size := by simp
  exact ⟨hb, ht, rfl, hwf, build_wrapped hp hb ht rfl hwf⟩

/-- Twelve nodes from before, and four inserted ones. -/
example : bayWrapping.allPairs 0 = [(0, 0), (1, 3), (2, 4), (3, 5), (4, 7), (5, 8), (6, 9),
      (7, 10), (8, 12), (9, 13), (10, 14), (11, 15)] ∧
    bayWrapping.inserted 1 = [1, 2, 6, 11] := by
  decide

end Schema

end DataTree
