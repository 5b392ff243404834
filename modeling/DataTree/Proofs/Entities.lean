import DataTree.Plan
import DataTree.Proofs.Collected

/-!
# What a walk visits

A walk is a loop over a stack; `s.entities p r` is the pre-order list it goes through. Each step
takes the first of the nodes that remain (`Wired.next_cases`), so any number of steps takes a first
part of them (`Wired.take_eq`), and a walk visits them all, in that order (`Wired.visits_eq`).

`s.Walked p r i`: the walk from `r` comes to `i`, by entities that have the next one as a resolved
child. These are the visited nodes (`Wired.mem_entities_iff`).
-/

namespace DataTree

variable {s : Schema} {root : Nat} {p : Policy}

theorem ChildSet.orderedChildren_perm (r : ChildSet) :
    r.orderedChildren.Perm r.children.values :=
  (Entries.orderedBy_perm Name.le r.children).map _

theorem Entries.pairwise_keys_orderedBy {α : Type} (m : Entries Name α) :
    (m.orderedBy Name.le).keys.Pairwise fun a b => Name.le a b = true := by
  rw [keys, List.pairwise_map, orderedBy]
  apply List.pairwise_mergeSort
  · exact fun _ _ _ => Name.le_trans
  · exact fun _ _ => Name.le_total _ _

namespace Schema

/-- What a walk shows of a node. -/
def visit (s : Schema) (p : Policy) (i : NodeId) : Visit :=
  ⟨i, s.resolve p i⟩

inductive Walked (s : Schema) (p : Policy) (r : NodeId) : NodeId → Prop where
  | root : s.Walked p r r
  | step {i c : NodeId} : s.Walked p r i → c ∈ s.entityChildren p i → s.Walked p r c

/-! ## Entities among the resolved children -/

theorem mem_entityChildren_iff {i c : Nat} : c ∈ s.entityChildren p i ↔
    c ∈ (s.resolve p i).children.values ∧ (s.node c).kind.isEntity = true := by
  rw [entityChildren, List.mem_filter, (s.resolve p i).orderedChildren_perm.mem_iff]

theorem mem_candidates_of_mem_values {i x : Nat}
    (hx : x ∈ (s.resolve p i).children.values) : x ∈ s.candidates p i := by
  obtain ⟨key, hm⟩ := Entries.exists_mem_of_mem_values hx
  exact (mem_candidates_of_mem_resolve hm).1

theorem mem_candidates_of_mem_entityChildren {i c : Nat} (hc : c ∈ s.entityChildren p i) :
    c ∈ s.candidates p i :=
  mem_candidates_of_mem_values (mem_entityChildren_iff.1 hc).1

theorem nodup_values (p : Policy) (i : NodeId) : (s.resolve p i).children.values.Nodup := by
  rw [resolve_children_eq]
  split
  · rw [Entries.values]
    refine List.Nodup.map_on ?_ (nodup_keys_firsts _).of_map
    rintro ⟨key, x⟩ hx ⟨key', x'⟩ hx' rfl
    rw [← (mem_of_mem_firsts hx).2, ← (mem_of_mem_firsts hx').2]
  · exact List.nodup_nil

theorem nodup_entityChildren (p : Policy) (i : NodeId) : (s.entityChildren p i).Nodup :=
  ((s.resolve p i).orderedChildren_perm.nodup_iff.2 (nodup_values p i)).filter _

namespace Wired

theorem below_of_mem_values (h : s.Wired root) {i x : Nat} (hi : root ≤ i)
    (hx : x ∈ (s.resolve p i).children.values) : s.Below i x :=
  h.below_of_mem_candidates hi (mem_candidates_of_mem_values hx)

theorem below_of_mem_entityChildren (h : s.Wired root) {i c : Nat} (hi : root ≤ i)
    (hc : c ∈ s.entityChildren p i) : s.Below i c :=
  h.below_of_mem_values hi (mem_entityChildren_iff.1 hc).1

/-! ## Pre-order -/

theorem entities_eq (h : s.Wired root) {i : Nat} (hi : root ≤ i) (hlt : i < s.size) :
    s.entities p i = i :: (s.entityChildren p i).flatMap (s.entities p) := by
  refine h.depth_succ (s.entitiesWithin p) (fun d d' i hi hj => ?_) hi hlt
  rw [entitiesWithin, entitiesWithin]
  refine congrArg _ (List.flatMap_congr fun c hc => ?_)
  exact hj c (h.below_of_mem_entityChildren hi hc)

/-- Policies that resolve all nodes at and below one alike go through the same entities. -/
theorem entities_congr (h : s.Wired root) {p p' : Policy} {r : Nat} (hr : root ≤ r)
    (hlt : r < s.size) (hres : ∀ i, s.AtOrBelow r i → s.resolve p i = s.resolve p' i) :
    s.entities p r = s.entities p' r := by
  induction r, hr, hlt using h.induction_down with
  | step r hr hlt ih =>
    have hsame : s.entityChildren p r = s.entityChildren p' r := by
      rw [entityChildren, entityChildren, hres r (.inl rfl)]
    rw [h.entities_eq hr hlt, h.entities_eq hr hlt, hsame]
    refine congrArg _ (List.flatMap_congr fun c hc => ?_)
    have hb := h.below_of_mem_entityChildren hr hc
    exact ih c hb fun i hi => hres i (.inr (hb.trans_at hi))

/-- Walks through two trees stay at related nodes if the entities among the children are related,
one by one. -/
theorem forall₂_entities (h : s.Wired root) {s' : Schema} {root' : Nat} (h' : s'.Wired root')
    {R : Nat → Nat → Prop}
    (hrange : ∀ {i i' : Nat}, R i i' → (root ≤ i ∧ i < s.size) ∧ root' ≤ i' ∧ i' < s'.size)
    {n n' : Nat} (hr : R n n')
    (hcs : ∀ {i i' : Nat}, i ∈ s.entities p n → R i i' →
      List.Forall₂ R (s.entityChildren p i) (s'.entityChildren p i')) :
    List.Forall₂ R (s.entities p n) (s'.entities p n') := by
  obtain ⟨⟨hn, hlt⟩, -⟩ := hrange hr
  induction n, hn, hlt using h.induction_down generalizing n' with
  | step n hn hlt ih =>
    obtain ⟨-, hn', hlt'⟩ := hrange hr
    rw [h.entities_eq hn hlt] at hcs ⊢
    rw [h'.entities_eq hn' hlt']
    have hmem : List.Forall₂ (fun c c' => c ∈ s.entityChildren p n ∧ R c c')
        (s.entityChildren p n) (s'.entityChildren p n') :=
      (List.forall₂_and_left _ _).2 ⟨fun c hc => hc, hcs List.mem_cons_self hr⟩
    refine .cons hr (List.rel_flatMap hmem fun c c' ⟨hc, hcc⟩ => ?_)
    refine ih c (h.below_of_mem_entityChildren hn hc) hcc fun {e e'} he hee => ?_
    exact hcs (List.mem_cons_of_mem _ (List.mem_flatMap.2 ⟨c, hc, he⟩)) hee

theorem self_mem_entities (h : s.Wired root) {i : Nat} (hi : root ≤ i) (hlt : i < s.size) :
    i ∈ s.entities p i := by
  rw [h.entities_eq hi hlt]
  exact List.mem_cons_self

/-- With an entity, a walk visits those among its resolved children. -/
theorem mem_entities_step (h : s.Wired root) {r i c : Nat} (hr : root ≤ r) (hlt : r < s.size)
    (hi : i ∈ s.entities p r) (hc : c ∈ s.entityChildren p i) : c ∈ s.entities p r := by
  induction r, hr, hlt using h.induction_down with
  | step r hr hlt ih =>
    rw [h.entities_eq hr hlt] at hi ⊢
    refine List.mem_cons_of_mem _ (List.mem_flatMap.2 ?_)
    rcases List.mem_cons.1 hi with rfl | hi
    · have hb := h.below_of_mem_entityChildren hr hc
      exact ⟨c, hc, h.self_mem_entities (h.root_le_below hr (.inr hb)) (h.below_lt hr hb).2⟩
    · obtain ⟨e, he, hi⟩ := List.mem_flatMap.1 hi
      exact ⟨e, he, ih e (h.below_of_mem_entityChildren hr he) hi⟩

end Wired

theorem Walked.trans {r i j : Nat} (hi : s.Walked p r i) (hj : s.Walked p i j) :
    s.Walked p r j := by
  induction hj with
  | root => exact hi
  | step _ hc ih => exact .step ih hc

theorem Walked.atOrBelow {r i : Nat} (hi : s.Walked p r i) (h : s.Wired root) (hr : root ≤ r) :
    s.AtOrBelow r i := by
  induction hi with
  | root => exact .inl rfl
  | step _ hc ih =>
    exact .inr (ih.trans_below (h.below_of_mem_entityChildren (h.root_le_below hr ih) hc))

theorem Walked.root_le {r i : Nat} (hi : s.Walked p r i) (h : s.Wired root) (hr : root ≤ r) :
    root ≤ i :=
  h.root_le_below hr (hi.atOrBelow h hr)

theorem Walked.lt_size {r i : Nat} (hi : s.Walked p r i) (h : s.Wired root) (hr : root ≤ r)
    (hlt : r < s.size) : i < s.size :=
  h.atOrBelow_lt_size hr hlt (hi.atOrBelow h hr)

/-- A visited node is the root of the walk or a resolved child of a visited node. -/
theorem Walked.eq_or_exists {r i : Nat} (hi : s.Walked p r i) :
    i = r ∨ ∃ e : Nat, s.Walked p r e ∧ i ∈ s.entityChildren p e := by
  cases hi with
  | root => exact .inl rfl
  | step he hc => exact .inr ⟨_, he, hc⟩

namespace Wired

theorem mem_entities_iff (h : s.Wired root) {r i : Nat} (hr : root ≤ r) (hlt : r < s.size) :
    i ∈ s.entities p r ↔ s.Walked p r i := by
  constructor
  · intro hi
    induction r, hr, hlt using h.induction_down with
    | step r hr hlt ih =>
      rw [h.entities_eq hr hlt] at hi
      rcases List.mem_cons.1 hi with rfl | hi
      · exact .root
      · obtain ⟨c, hc, hi⟩ := List.mem_flatMap.1 hi
        exact (Walked.step .root hc).trans (ih c (h.below_of_mem_entityChildren hr hc) hi)
  · intro hi
    induction hi with
    | root => exact h.self_mem_entities hr hlt
    | step _ hc ih => exact h.mem_entities_step hr hlt ih hc

end Wired

end Schema

/-! ## The steps of a walk -/

namespace Walk

variable {w : Walk}

/-- The nodes that the walk still comes to, in order. -/
def remaining (s : Schema) (w : Walk) : List NodeId :=
  (w.pending s).flatMap (s.entities w.policy)

/-- The walk holds nodes from `root` on, and no others. -/
def Within (s : Schema) (root : Nat) (w : Walk) : Prop :=
  ∀ i ∈ w.waiting ++ w.stack, root ≤ i ∧ i < s.size

theorem within_start (p : Policy) {r : Nat} (hr : root ≤ r) (hlt : r < s.size) :
    (start p r).Within s root := by
  intro i hi
  cases List.mem_singleton.1 hi
  exact ⟨hr, hlt⟩

theorem Within.of_mem_pending (h : w.Within s root) {i : NodeId} (hi : i ∈ w.pending s) :
    root ≤ i ∧ i < s.size := by
  refine h i ?_
  rcases List.mem_append.1 hi with hi | hi
  · exact List.mem_append_left _ (List.mem_filter.1 hi).1
  · exact List.mem_append_right _ hi

theorem next_of_nil (hp : w.pending s = []) : w.next s = ⟨none, [], ⟨w.policy, [], []⟩⟩ := by
  rw [next, hp]

/-- A step shows one node, and what it reports is about that node. -/
theorem next_of_cons {i : NodeId} {rest : List NodeId} (hp : w.pending s = i :: rest) :
    w.next s = ⟨some (s.visit w.policy i), (s.visit w.policy i).events s w.policy,
      ⟨w.policy, rest, (s.resolve w.policy i).orderedChildren⟩⟩ := by
  rw [next, hp]
  rfl

theorem take_of_none {events : List Event} {later : Walk} (h : w.next s = ⟨none, events, later⟩)
    (count : Nat) : w.take s (count + 1) = ⟨[], events, later⟩ := by
  rw [take, h]

theorem take_of_some {visit : Visit} {events : List Event} {later : Walk}
    (h : w.next s = ⟨some visit, events, later⟩) (count : Nat) : w.take s (count + 1) =
      ⟨visit :: (later.take s count).shown, events ++ (later.take s count).events,
        (later.take s count).later⟩ := by
  rw [take, h]

/-- The report of some steps is that of the visits that they show, one after the other. -/
theorem take_events (w : Walk) (count : Nat) :
    (w.take s count).events = (w.take s count).shown.flatMap (Visit.events s w.policy) := by
  induction count generalizing w with
  | zero => rfl
  | succ count ih =>
    cases hp : w.pending s with
    | nil => rw [take_of_none (next_of_nil hp)]; rfl
    | cons i rest =>
      rw [take_of_some (next_of_cons hp), List.flatMap_cons, ih]

theorem remaining_start (p : Policy) (r : NodeId) :
    (start p r).remaining s = s.entities p r :=
  List.append_nil _

end Walk

namespace Schema.Wired

/-- One step: nothing remains and the walk is over, or the first of what remains is visited. -/
theorem next_cases (h : s.Wired root) {w : Walk} (hw : w.Within s root) :
    (w.remaining s = [] ∧ w.next s = ⟨none, [], ⟨w.policy, [], []⟩⟩) ∨
      ∃ (i : NodeId) (later : Walk), w.next s =
          ⟨some (s.visit w.policy i), (s.visit w.policy i).events s w.policy, later⟩ ∧
        w.remaining s = i :: later.remaining s ∧ later.Within s root ∧
        later.policy = w.policy := by
  cases hp : w.pending s with
  | nil =>
    refine .inl ⟨?_, Walk.next_of_nil hp⟩
    rw [Walk.remaining, hp]
    rfl
  | cons i rest =>
    obtain ⟨hi, hlt⟩ := hw.of_mem_pending (hp ▸ List.mem_cons_self)
    refine .inr ⟨i, _, Walk.next_of_cons hp, ?_, fun j hj => ?_, rfl⟩
    · rw [Walk.remaining, hp, List.flatMap_cons, h.entities_eq hi hlt, List.cons_append,
        ← List.flatMap_append]
      rfl
    · rcases List.mem_append.1 hj with hj | hj
      · rw [(s.resolve w.policy i).orderedChildren_perm.mem_iff] at hj
        have hb := h.below_of_mem_values hi hj
        exact ⟨h.root_le_below hi (.inr hb), (h.below_lt hi hb).2⟩
      · exact hw.of_mem_pending (hp ▸ List.mem_cons_of_mem _ hj)

/-- A walk takes the nodes that remain from the front, however often it is asked. -/
theorem take_eq (h : s.Wired root) (count : Nat) {w : Walk} (hw : w.Within s root) :
    (w.take s count).shown = ((w.remaining s).take count).map (s.visit w.policy) := by
  induction count generalizing w with
  | zero => rfl
  | succ count ih =>
    rcases h.next_cases hw with ⟨hrem, hnext⟩ | ⟨i, later, hnext, hrem, hlater, hpol⟩
    · rw [Walk.take_of_none hnext, hrem]
      rfl
    · rw [Walk.take_of_some hnext, hrem, ih hlater, hpol]
      rfl

/-- What is left after some steps. -/
theorem remaining_take (h : s.Wired root) (count : Nat) {w : Walk} (hw : w.Within s root) :
    (w.take s count).later.remaining s = (w.remaining s).drop count ∧
      (w.take s count).later.Within s root ∧ (w.take s count).later.policy = w.policy := by
  induction count generalizing w with
  | zero => exact ⟨rfl, hw, rfl⟩
  | succ count ih =>
    rcases h.next_cases hw with ⟨hrem, hnext⟩ | ⟨i, later, hnext, hrem, hlater, hpol⟩
    · rw [Walk.take_of_none hnext, hrem]
      exact ⟨rfl, fun _ hi => (nomatch hi), rfl⟩
    · rw [Walk.take_of_some hnext, hrem, List.drop_succ_cons, ← hpol]
      exact ih hlater

/-- All visits of a walk. -/
theorem visits_eq (h : s.Wired root) (p : Policy) {r : Nat} (hr : root ≤ r) (hlt : r < s.size) :
    (Walk.start p r).visits s = (s.entities p r).map (s.visit p) := by
  have hlen : (Walk.start p r).length s = ((Walk.start p r).remaining s).length := rfl
  rw [Walk.visits, Walk.finish, h.take_eq _ (Walk.within_start p hr hlt), hlen, List.take_length,
    Walk.remaining_start]
  rfl

theorem visits_congr (h : s.Wired root) {p p' : Policy} {r : Nat} (hr : root ≤ r)
    (hlt : r < s.size) (hres : ∀ i, s.AtOrBelow r i → s.resolve p i = s.resolve p' i) :
    (Walk.start p r).visits s = (Walk.start p' r).visits s := by
  rw [h.visits_eq p hr hlt, h.visits_eq p' hr hlt, h.entities_congr hr hlt hres]
  refine List.map_congr_left fun i hi => ?_
  rw [visit, visit, hres i (((h.mem_entities_iff hr hlt).1 hi).atOrBelow h hr)]

theorem mem_visits_iff (h : s.Wired root) {r : Nat} (hr : root ≤ r) (hlt : r < s.size)
    {v : Visit} : v ∈ (Walk.start p r).visits s ↔ ∃ i, s.Walked p r i ∧ s.visit p i = v := by
  rw [h.visits_eq p hr hlt, List.mem_map]
  exact exists_congr fun i => and_congr_left fun _ => h.mem_entities_iff hr hlt

end Schema.Wired

end DataTree
