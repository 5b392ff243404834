import DataTree.Proofs.Exclusion
import DataTree.Proofs.Mirror
import DataTree.Proofs.Ownership
import DataTree.Proofs.Traversal

/-!
# Altered schemas

`s.Altered done s'`: `s'` has the nodes of `s` and maybe more, and only those in `done` may have
other children than before. Where nothing at or below a node is in `done`, the node is resolved as
before (`Altered.resolve_eq`).

What a walk has shown is behind it for good: no such node is at or below one that it still comes to
(`Wired.not_below_of_shown`). So changing the children of nodes that were shown does not change its
next steps (`Altered.take_eq`).
-/

namespace DataTree.Schema

variable {s s' s'' : Schema} {root r n : Nat} {p : Policy} {done : List NodeId}

/-! ## Schemas that grow or change -/

/-- `s'` has the nodes of `s`, and maybe more. -/
structure Extends (s' s : Schema) : Prop where
  size_le : s.size ≤ s'.size
  node : ∀ {i : Nat}, i < s.size → s'.node i = s.node i

theorem Extends.refl (s : Schema) : s.Extends s :=
  ⟨Nat.le_refl _, fun _ => rfl⟩

theorem size_push (s : Schema) (node : Node) : (s.push node).size = s.size + 1 :=
  Array.size_push ..

theorem extends_push (s : Schema) (node : Node) : (s.push node).Extends s := by
  refine ⟨?_, fun hi => ?_⟩
  · rw [size_push]
    exact Nat.le_succ _
  · rw [Schema.node, Schema.node, push, Array.getElem?_push_lt hi, Array.getElem?_eq_getElem hi]

theorem extends_plant (s : Schema) (t : Tree) (name : Name) (path : String)
    (parent : Option NodeId) : (s.plant t name path parent).Extends s := by
  refine ⟨?_, node_plant_of_lt⟩
  rw [size_plant]
  exact Nat.le_add_right _ _

theorem size_modify (s : Schema) (i : NodeId) (change : Node → Node) :
    (s.modify i change).size = s.size :=
  Array.size_modify ..

theorem node_modify_of_ne (s : Schema) {i j : NodeId} (h : i ≠ j) (change : Node → Node) :
    (s.modify i change).node j = s.node j := by
  rw [node, node, modify, Array.getElem?_modify, if_neg h]

theorem node_modify_self (s : Schema) {i : Nat} (h : i < s.size) (change : Node → Node) :
    (s.modify i change).node i = change (s.node i) := by
  rw [node, node, modify, Array.getElem?_modify, if_pos rfl, Array.getElem?_eq_getElem h]
  rfl

/-! ## Alterations -/

structure Altered (s : Schema) (done : List NodeId) (s' : Schema) : Prop where
  size_le : s.size ≤ s'.size
  node : ∀ {i : Nat}, i < s.size → ∃ children, s'.node i = { s.node i with children }
  kept : ∀ {i : Nat}, i < s.size → i ∉ done → s'.node i = s.node i

namespace Altered

theorem refl (s : Schema) (done : List NodeId) : s.Altered done s :=
  ⟨Nat.le_refl _, fun _ => ⟨_, rfl⟩, fun _ _ => rfl⟩

theorem mono (h : s.Altered done s') {done' : List NodeId} (hsub : done ⊆ done') :
    s.Altered done' s' :=
  ⟨h.size_le, h.node, fun hi hn => h.kept hi fun hd => hn (hsub hd)⟩

theorem trans_extends (h : s.Altered done s') (he : s''.Extends s') : s.Altered done s'' := by
  have hnode : ∀ {i : Nat}, i < s.size → s''.node i = s'.node i := fun hi =>
    he.node (Nat.lt_of_lt_of_le hi h.size_le)
  refine ⟨Nat.le_trans h.size_le he.size_le, fun hi => ?_, fun hi hd => ?_⟩
  · rw [hnode hi]
    exact h.node hi
  · rw [hnode hi]
    exact h.kept hi hd

/-- The children of a node in `done` may change. -/
theorem modify (h : s.Altered done s') {i : NodeId} (hi : i ∈ done)
    (change : Entries Name NodeId → Entries Name NodeId) :
    s.Altered done (s'.modify i fun n => { n with children := change n.children }) := by
  refine ⟨?_, fun {j} hj => ?_, fun {j} hj hd => ?_⟩
  · rw [size_modify]
    exact h.size_le
  · obtain ⟨children, hn⟩ := h.node hj
    by_cases e : i = j
    · subst e
      rw [node_modify_self s' (Nat.lt_of_lt_of_le hj h.size_le), hn]
      exact ⟨_, rfl⟩
    · rw [node_modify_of_ne s' e]
      exact ⟨children, hn⟩
  · have hne : i ≠ j := fun e => hd (e ▸ hi)
    rw [node_modify_of_ne s' hne]
    exact h.kept hj hd

theorem kind_eq (h : s.Altered done s') {i : Nat} (hi : i < s.size) :
    (s'.node i).kind = (s.node i).kind := by
  obtain ⟨_, hn⟩ := h.node hi
  rw [hn]

theorem writable_eq (h : s.Altered done s') (hcl : s.Closed) {i : Nat} (hi : i < s.size) :
    s'.writable i = s.writable i := by
  rw [writable, ← writableWithin_eq h.size_le]
  refine (writableWithin_congr (R := fun i i' => i = i' ∧ i < s.size) ?_ ?_ ⟨rfl, hi⟩ _).symm
  · rintro i _ ⟨rfl, hi⟩
    obtain ⟨_, hn⟩ := h.node hi
    rw [hn]
  · rintro i _ ⟨rfl, hi⟩
    obtain ⟨_, hn⟩ := h.node hi
    rw [hn]
    cases hq : (s.node i).parent with
    | none => exact .none
    | some q => exact .some ⟨rfl, hcl hq⟩

/-! ## Resolution out of reach -/

/-- Where nothing at or below a node is in `done`, it is mirrored by itself. -/
theorem mirrors (h : s.Altered done s') (hcl : s.Closed) (hw : s.Wired root) (p : Policy)
    (hn : root ≤ n) (hlt : n < s.size) (hd : ∀ j ∈ done, ¬ s.AtOrBelow n j) :
    s.Mirrors root s' id id p p fun i i' => i = i' ∧ s.AtOrBelow n i := by
  have hrange : ∀ {i : Nat}, s.AtOrBelow n i → root ≤ i ∧ i < s.size := fun hi =>
    ⟨hw.root_le_below hn hi, hi.elim (fun e => e ▸ hlt) fun hb => (hw.below_lt hn hb).2⟩
  have hkept : ∀ {i : Nat}, s.AtOrBelow n i → s'.node i = s.node i := fun hi =>
    h.kept (hrange hi).2 fun hmem => hd _ hmem hi
  refine ⟨hw, h.size_le, Function.injective_id, fun _ => rfl, Option.map_id'.symm, ?range, ?kind,
    ?admits, ?children⟩
  case range =>
    rintro i _ ⟨rfl, hi⟩
    exact hrange hi
  case kind =>
    rintro i _ ⟨rfl, hi⟩
    rw [hkept hi]
  case admits =>
    rintro i _ ⟨rfl, hi⟩
    rw [Schema.admits, Schema.admits, h.writable_eq hcl (hrange hi).2]
  case children =>
    rintro i _ ⟨rfl, hi⟩
    rw [hkept hi, Entries.Mirrored, List.forall₂_same]
    rintro ⟨key, c⟩ hm
    have hc : s.AtOrBelow n c := .inr (hi.trans_below (below_child (Entries.mem_values_of_mem hm)))
    exact ⟨rfl, ⟨rfl, hc⟩, by rw [hkept hc]; rfl⟩

section

variable (h : s.Altered done s') (hcl : s.Closed) (hw : s.Wired root) (p : Policy)
  (hn : root ≤ n) (hlt : n < s.size) (hd : ∀ j ∈ done, ¬ s.AtOrBelow n j)
include h hcl hw hn hlt hd

theorem node_eq_of_mirrored {x x' : Nat} (hx : x = x' ∧ s.AtOrBelow n x) :
    s'.node x' = s.node x := by
  obtain ⟨rfl, hx⟩ := hx
  exact h.kept ((h.mirrors hcl hw .uncompressed hn hlt hd).range ⟨rfl, hx⟩).2 fun hmem =>
    hd x hmem hx

theorem resolve_eq : s'.resolve p n = s.resolve p n := by
  have hr := (h.mirrors hcl hw p hn hlt hd).resolve ⟨rfl, .inl rfl⟩
  have hnode : ∀ {x x' : Nat}, x = x' ∧ s.AtOrBelow n x → s'.node x' = s.node x :=
    h.node_eq_of_mirrored hcl hw hn hlt hd
  have hchildren : (s'.resolve p n).children = (s.resolve p n).children :=
    (hr.children.eq_map fun _ _ hx => hx.related.1).trans (List.map_id _)
  have hdefects : (s.resolve p n).defects = (s'.resolve p n).defects := by
    rw [← List.forall₂_eq_eq_eq]
    refine hr.defects.imp fun d d' hdd => ?_
    cases hdd with
    | duplicate hx => rw [Collector.duplicate, Collector.duplicate, hnode hx.related]
    | nestedPair hx => rw [Collector.nestedPair, Collector.nestedPair, hnode hx.related]
  exact congrArg₂ ChildSet.mk hchildren hdefects.symm

/-- The resolution is also reported as before. -/
theorem events_eq : (s'.visit p n).events s' p = (s.visit p n).events s p := by
  have hm := h.mirrors hcl hw p hn hlt hd
  have hnode : ∀ {x x' : Nat}, x = x' ∧ s.AtOrBelow n x → s'.node x' = s.node x :=
    h.node_eq_of_mirrored hcl hw hn hlt hd
  have hrefs : (s.keyReferences p n).map (fun c => Event.keyReference (s.node c).path) =
      (s'.keyReferences p n).map fun c => Event.keyReference (s'.node c).path := by
    rw [← List.forall₂_eq_eq_eq, List.forall₂_map_left_iff, List.forall₂_map_right_iff]
    refine (hm.forall₂_keyReferences ⟨rfl, .inl rfl⟩).imp fun c c' hc => ?_
    rw [hnode hc.related]
  simp only [Visit.events, Visit.resolveEvents, Visit.path, Schema.visit, resolveEvents,
    h.resolve_eq hcl hw p hn hlt hd, hm.admits ⟨rfl, .inl rfl⟩, hnode ⟨rfl, .inl rfl⟩, hrefs]

end

end Altered

/-! ## What is behind a walk -/

namespace Wired

/-- From a node that a walk comes to, it comes to all those below that it comes to at all. -/
theorem walked_of_below (h : s.Wired root) (hr : root ≤ r) {i j : Nat} (hi : s.Walked p r i)
    (hj : s.Walked p r j) (hb : s.Below i j) : s.Walked p i j := by
  induction hj with
  | root => exact (h.below_ne hr ((hi.atOrBelow h hr).trans_below hb) rfl).elim
  | @step e j he hc ih =>
    have hre := he.root_le h hr
    have hri := hi.root_le h hr
    -- the walk comes to `j` by way of `e`, which is `i`, below `i` or above `i`
    rcases h.comparable hri hre hb (h.below_of_mem_entityChildren hre hc) with rfl | hie | hei
    · exact .step .root hc
    · exact .step (ih hie) hc
    · have hcand := mem_candidates_of_mem_entityChildren hc
      exact (h.not_between_of_walked hr he hi hcand hei hb).elim

/-- No node that a walk has shown is at or below one that it still comes to. -/
theorem not_below_of_shown (h : s.Wired root) (hr : root ≤ r) (hlt : r < s.size) {k i j : Nat}
    (hi : (s.entities p r)[k]? = some i) (hj : j ∈ (s.entities p r).take k) :
    ¬ s.AtOrBelow i j := by
  intro hij
  have hwi := (h.mem_entities_iff hr hlt).1 (List.mem_of_getElem? hi)
  have hwj := (h.mem_entities_iff hr hlt).1 (List.mem_of_mem_take hj)
  have hwalk : s.Walked p i j := by
    rcases hij with rfl | hb
    · exact .root
    · exact h.walked_of_below hr hwi hwj hb
  -- so `j` is on the walk of `i`, with which the rest of the walk begins
  have hmem := (h.mem_entities_iff (hwi.root_le h hr) (hwi.lt_size h hr hlt)).2 hwalk
  have hdrop := (h.entities_prefix_drop hr hlt hi).subset hmem
  have hn := h.nodup_entities p hr hlt
  rw [← List.take_append_drop k (s.entities p r)] at hn
  exact (List.nodup_append.1 hn).2.2 j hj j hdrop rfl

end Wired

end DataTree.Schema

/-! ## A walk after alterations -/

namespace DataTree

variable {s s' : Schema} {root r : Nat} {p : Policy}

namespace Walk

theorem take_of_over (p : Policy) (count : Nat) :
    take s count ⟨p, [], []⟩ = ⟨[], [], ⟨p, [], []⟩⟩ := by
  cases count with
  | zero => rfl
  | succ count => exact take_of_none rfl count

/-- Some visits and then some more. -/
theorem take_add (w : Walk) (k count : Nat) : w.take s (k + count) =
    ⟨(w.take s k).shown ++ ((w.take s k).later.take s count).shown,
      (w.take s k).events ++ ((w.take s k).later.take s count).events,
      ((w.take s k).later.take s count).later⟩ := by
  induction k generalizing w with
  | zero => rw [Nat.zero_add]; rfl
  | succ k ih =>
    rw [Nat.succ_add_eq_add_succ, Nat.add_succ]
    cases hp : w.pending s with
    | nil =>
      have hnext := next_of_nil hp
      rw [take_of_none hnext, take_of_none hnext]
      simp only [take_of_over, List.append_nil]
    | cons i rest =>
      have hnext := next_of_cons hp
      rw [take_of_some hnext, take_of_some hnext, ih]
      simp only [List.cons_append, List.append_assoc]

end Walk

namespace Schema.Altered

theorem pending_eq {done : List NodeId} (h : s.Altered done s') {w : Walk} (hw : w.Within s root) :
    w.pending s' = w.pending s := by
  rw [Walk.pending, Walk.pending]
  refine congrArg (· ++ w.stack) (List.filter_congr fun i hi => ?_)
  rw [h.kind_eq (hw i (List.mem_append_left _ hi)).2]

/-- A walk takes its next step as before when no other nodes were altered than it has shown. -/
theorem next_eq {k : Nat} (h : s.Altered ((s.entities p r).take k) s') (hcl : s.Closed)
    (hw : s.Wired root) (hr : root ≤ r) (hlt : r < s.size) :
    ((Walk.start p r).take s k).later.next s' = ((Walk.start p r).take s k).later.next s := by
  obtain ⟨hrem, hwithin, hpol⟩ := hw.remaining_take k (Walk.within_start p hr hlt)
  rw [Walk.remaining_start] at hrem
  generalize ((Walk.start p r).take s k).later = w at *
  change w.policy = p at hpol
  cases hp : w.pending s with
  | nil => rw [Walk.next_of_nil hp, Walk.next_of_nil ((h.pending_eq hwithin).trans hp)]
  | cons i rest =>
    obtain ⟨hi, hilt⟩ := hwithin.of_mem_pending (hp ▸ List.mem_cons_self)
    have hk : (s.entities p r)[k]? = some i := by
      rw [← List.head?_drop, ← hrem, Walk.remaining, hp, List.flatMap_cons,
        hw.entities_eq hi hilt]
      rfl
    have hd : ∀ j ∈ (s.entities p r).take k, ¬ s.AtOrBelow i j := fun j =>
      hw.not_below_of_shown hr hlt hk
    rw [Walk.next_of_cons hp, Walk.next_of_cons ((h.pending_eq hwithin).trans hp),
      h.events_eq hcl hw w.policy hi hilt hd, visit, visit, h.resolve_eq hcl hw w.policy hi hilt hd]

/-- So are any number of steps. -/
theorem take_eq {k : Nat} (h : s.Altered ((s.entities p r).take k) s') (hcl : s.Closed)
    (hw : s.Wired root) (hr : root ≤ r) (hlt : r < s.size) (count : Nat) :
    ((Walk.start p r).take s k).later.take s' count =
      ((Walk.start p r).take s k).later.take s count := by
  induction count generalizing k with
  | zero => rfl
  | succ count ih =>
    have hnext := h.next_eq hcl hw hr hlt
    cases hstep : ((Walk.start p r).take s k).later.next s with
    | mk shown events later =>
      rw [hstep] at hnext
      cases shown with
      | none => rw [Walk.take_of_none hstep, Walk.take_of_none hnext]
      | some visit =>
        have hlater : later = ((Walk.start p r).take s (k + 1)).later := by
          rw [Walk.take_add, Walk.take_of_some hstep]
          rfl
        have hmono := h.mono (List.take_subset_take_left _ (Nat.le_succ k))
        rw [Walk.take_of_some hstep, Walk.take_of_some hnext, hlater, ih hmono]

end Schema.Altered

end DataTree
