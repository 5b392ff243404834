import DataTree.Proofs.Planted
import Mathlib.Logic.Relation
import Mathlib.Data.List.Nodup

/-!
# Wired trees

`s.IsBuilt root`: a description has just been built into `s`, its root at number `root`. The nodes
from `root` on are then wired (`IsBuilt.wired`): children have greater numbers, know their parent,
stand under their own names, and every node but the root is a child.

`s.Below a d`: `d` is strictly below `a`; `s.AtOrBelow a d` allows `d` to be `a`. Two nodes above
the same node are one above the other (`Wired.comparable`), so the trees below two siblings are
disjoint. A search of bounded depth that only goes down gives the same for every depth that is
enough (`Wired.depth_irrelevant`).
-/

namespace DataTree

namespace Schema

/-- The tree may stand on its own or below a node that was there before. -/
def IsBuilt (s : Schema) (root : NodeId) : Prop :=
  ∃ (s₀ : Schema) (description : Value) (name : Name) (parent : Option NodeId),
    (∀ q : Nat, parent = some q → q < s₀.size) ∧
    s₀.build description name parent = .ok s ∧ root = s₀.size

structure Wired (s : Schema) (root : Nat) : Prop where
  root_lt_size : root < s.size
  root_parent_lt : ∀ {q : Nat}, (s.node root).parent = some q → q < root
  lt_child : ∀ {i c : Nat}, root ≤ i → c ∈ s.children i → i < c
  child_lt_size : ∀ {i c : Nat}, root ≤ i → c ∈ s.children i → c < s.size
  child_parent : ∀ {i c : Nat}, root ≤ i → c ∈ s.children i → (s.node c).parent = some i
  exists_parent : ∀ {i : Nat}, root < i → i < s.size → ∃ q : Nat, root ≤ q ∧ i ∈ s.children q
  key_eq : ∀ {i c : Nat} {key : Name}, root ≤ i → (key, c) ∈ (s.node i).children →
    key = (s.node c).name
  named : ∀ {i c : Nat}, root ≤ i → c ∈ s.children i → (s.node c).name.isSome = true
  nodup_keys : ∀ {i : Nat}, root ≤ i → (s.node i).children.keys.Nodup
  bare : ∀ {i : Nat}, root ≤ i → (s.node i).kind.isDirectory = false → s.children i = []

/-- An accepted description is planted at the end of the schema. -/
theorem build_eq_ok_iff {s₀ s : Schema} {description : Value} {name : Name}
    {parent : Option NodeId} :
    s₀.build description name parent = .ok s ↔
      ∃ t, Tree.ofValue name (s₀.newPath name parent) description = .ok t ∧
        s₀.plant t name (s₀.newPath name parent) parent = s := by
  simp only [build, bind_eq_ok_iff, pure_eq_ok_iff]

end Schema

/-! ## Built trees are wired -/

variable {s : Schema} {root : Nat}

/-- A tree planted at the end of a schema is wired. -/
theorem Tree.Planted.wired {t : Tree} {name : Name} {path : String} {parent : Option NodeId}
    (h : t.Planted s name path parent root) (hw : t.WellFormed) (hs : s.size = root + t.size)
    (hp : ∀ q : Nat, parent = some q → q < root) : s.Wired root := by
  have hsub : ∀ {i : Nat}, root ≤ i → i < s.size → ∃ (u : Tree) (name' : Name) (path' : String)
      (parent' : Option NodeId), u.WellFormed ∧ u.Planted s name' path' parent' i ∧
      i + u.size ≤ s.size := fun hi hlt => hs ▸ h.exists_planted hw hi (hs ▸ hlt)
  have hchild : ∀ {i c : Nat}, root ≤ i → c ∈ s.children i →
      i < c ∧ c < s.size ∧ (s.node c).parent = some i := fun hi hc => by
    obtain ⟨u, _, _, _, hwu, hu, hle⟩ := hsub hi (Schema.lt_size_of_mem_children hc)
    obtain ⟨v, _, -, hv, hlt, hle'⟩ := hu.child hwu hc
    have : v.size = v.children.size + 1 := rfl
    exact ⟨hlt, by omega, by rw [hv.node]⟩
  exact {
    root_lt_size := by rw [hs, Tree.size]; omega
    root_parent_lt := fun hq => hp _ (by rwa [h.node] at hq)
    lt_child := fun hi hc => (hchild hi hc).1
    child_lt_size := fun hi hc => (hchild hi hc).2.1
    child_parent := fun hi hc => (hchild hi hc).2.2
    exists_parent := fun hi hlt => by
      obtain ⟨q, hq, -, hm⟩ := h.exists_parent hi (hs ▸ hlt)
      exact ⟨q, hq, hm⟩
    key_eq := fun hi hm => by
      have hc : _ ∈ s.children _ := Entries.mem_values_of_mem hm
      obtain ⟨u, _, _, _, hwu, hu, -⟩ := hsub hi (Schema.lt_size_of_mem_children hc)
      obtain ⟨v, -, hv, -, -⟩ := hu.below.slot hwu.children (hu.children_eq ▸ hm)
      rw [hv.node]
    named := fun hi hc => by
      obtain ⟨u, _, _, _, hwu, hu, -⟩ := hsub hi (Schema.lt_size_of_mem_children hc)
      obtain ⟨key, hm⟩ := hu.exists_key hc
      obtain ⟨v, -, hv, -, -⟩ := hu.below.slot hwu.children hm
      rw [hv.node]
      apply hwu.children.isSome_of_mem_names
      rw [← Forest.keys_slots _ _]
      exact Entries.mem_keys_of_mem hm
    nodup_keys := fun {i} hi => by
      rcases Nat.lt_or_ge i s.size with hlt | hge
      · obtain ⟨u, _, _, _, hwu, hu, -⟩ := hsub hi hlt
        rw [hu.children_eq, Forest.keys_slots]
        exact hwu.children.nodup_names
      · rw [Schema.node_of_size_le hge]
        exact List.nodup_nil
    bare := fun {i} hi hk => by
      rcases Nat.lt_or_ge i s.size with hlt | hge
      · obtain ⟨u, _, _, _, hwu, hu, -⟩ := hsub hi hlt
        rw [hu.node] at hk
        rw [Schema.children, hu.node, hwu.bare hk]
        rfl
      · rw [Schema.children, Schema.node_of_size_le hge]
        rfl }

namespace Schema

theorem IsBuilt.wired (h : s.IsBuilt root) : s.Wired root := by
  obtain ⟨s₀, description, name, parent, hp, hb, rfl⟩ := h
  obtain ⟨t, ht, rfl⟩ := build_eq_ok_iff.1 hb
  exact (t.planted_plant s₀ name _ parent).wired (Tree.wellFormed_of_ofValue ht)
    (s₀.size_plant t name _ parent) hp

/-- A port with a pair of sides that share a name, and a list in a container of its own. -/
def portDescription : Value :=
  .map [("children", .map [
    ("config", .map [("children", .map [("name", .map []), ("mtu", .map [])])]),
    ("state", .map [("config", .bool false),
      ("children", .map [("name", .map []), ("up", .map [])])]),
    ("units", .map [("children", .map [("unit", .map [("kind", .str "list"),
      ("children", .map [("id", .map [])])])])])])]

def portSchema : Schema :=
  ((empty.build portDescription (some "port") none).toOption).getD empty

theorem portSchema_isBuilt : portSchema.IsBuilt 0 :=
  ⟨empty, portDescription, some "port", none, nofun, rfl, rfl⟩

/-! ## Above and below -/

def Below (s : Schema) : NodeId → NodeId → Prop :=
  Relation.TransGen fun a c => c ∈ s.children a

abbrev AtOrBelow (s : Schema) (a d : NodeId) : Prop :=
  d = a ∨ s.Below a d

theorem below_child {a c : NodeId} (h : c ∈ s.children a) : s.Below a c :=
  Relation.TransGen.single h

theorem Below.trans {a b c : NodeId} (h : s.Below a b) (h' : s.Below b c) : s.Below a c :=
  Relation.TransGen.trans h h'

theorem Below.trans_at {a b c : NodeId} (h : s.Below a b) (h' : s.AtOrBelow b c) :
    s.Below a c := by
  rcases h' with rfl | h'
  · exact h
  · exact h.trans h'

theorem AtOrBelow.trans_below {a b c : NodeId} (h : s.AtOrBelow a b) (h' : s.Below b c) :
    s.Below a c := by
  rcases h with rfl | h
  · exact h'
  · exact h.trans h'

/-- The last step down. -/
theorem Below.exists_mem {a d : NodeId} (h : s.Below a d) :
    ∃ q : Nat, s.AtOrBelow a q ∧ d ∈ s.children q := by
  obtain ⟨q, hq, hd⟩ := Relation.TransGen.tail'_iff.1 h
  exact ⟨q, Relation.reflTransGen_iff_eq_or_transGen.1 hq, hd⟩

/-- The first step down. -/
theorem Below.exists_child {a d : NodeId} (h : s.Below a d) :
    ∃ c ∈ s.children a, s.AtOrBelow c d := by
  obtain ⟨c, hc, hd⟩ := Relation.TransGen.head'_iff.1 h
  exact ⟨c, hc, Relation.reflTransGen_iff_eq_or_transGen.1 hd⟩

theorem Below.lt_size {a d : NodeId} (h : s.Below a d) : a < s.size := by
  obtain ⟨c, hc, -⟩ := h.exists_child
  exact lt_size_of_mem_children hc

namespace Wired

theorem below_lt (h : s.Wired root) {a d : Nat} (ha : root ≤ a) (hd : s.Below a d) :
    a < d ∧ d < s.size := by
  induction hd with
  | single hc => exact ⟨h.lt_child ha hc, h.child_lt_size ha hc⟩
  | tail _ hc ih =>
    have hb := Nat.le_trans ha (Nat.le_of_lt ih.1)
    exact ⟨Nat.lt_trans ih.1 (h.lt_child hb hc), h.child_lt_size hb hc⟩

theorem named_of_below (h : s.Wired root) {a d : Nat} (ha : root ≤ a) (hd : s.Below a d) :
    ∃ name : String, (s.node d).name = some name := by
  induction hd with
  | single hc => exact Option.isSome_iff_exists.1 (h.named ha hc)
  | tail hb hc _ =>
    have hrb := Nat.le_trans ha (Nat.le_of_lt (h.below_lt ha hb).1)
    exact Option.isSome_iff_exists.1 (h.named hrb hc)

theorem below_ne (h : s.Wired root) {a d : Nat} (ha : root ≤ a) (hd : s.Below a d) : d ≠ a :=
  Nat.ne_of_gt (h.below_lt ha hd).1

theorem below_le (h : s.Wired root) {a d : Nat} (ha : root ≤ a) (hd : s.AtOrBelow a d) :
    a ≤ d := by
  rcases hd with rfl | hd
  · exact Nat.le_refl _
  · exact Nat.le_of_lt (h.below_lt ha hd).1

theorem atOrBelow_lt_size (h : s.Wired root) {a d : Nat} (ha : root ≤ a) (hlt : a < s.size)
    (hd : s.AtOrBelow a d) : d < s.size := by
  rcases hd with rfl | hd
  · exact hlt
  · exact (h.below_lt ha hd).2

theorem root_le_child (h : s.Wired root) {i c : Nat} (hi : root ≤ i) (hc : c ∈ s.children i) :
    root ≤ c :=
  Nat.le_trans hi (Nat.le_of_lt (h.lt_child hi hc))

theorem root_le_below (h : s.Wired root) {a d : Nat} (ha : root ≤ a) (hd : s.AtOrBelow a d) :
    root ≤ d :=
  Nat.le_trans ha (h.below_le ha hd)

/-- A proof about a node from the proofs about all nodes below it. -/
theorem induction_down (h : s.Wired root) {motive : ∀ i, root ≤ i → i < s.size → Prop}
    (step : ∀ i (hi : root ≤ i) (hlt : i < s.size),
      (∀ d (hd : s.Below i d), motive d (h.root_le_below hi (.inr hd)) (h.below_lt hi hd).2) →
      motive i hi hlt)
    (i : Nat) (hi : root ≤ i) (hlt : i < s.size) : motive i hi hlt := by
  induction hn : s.size - i using Nat.strongRecOn generalizing i with
  | ind n ih =>
    refine step i hi hlt fun d hd => ?_
    have := h.below_lt hi hd
    exact ih (s.size - d) (by omega) d (h.root_le_below hi (.inr hd)) this.2 rfl

theorem parent_unique (h : s.Wired root) {a b c : Nat} (ha : root ≤ a) (hb : root ≤ b)
    (hac : c ∈ s.children a) (hbc : c ∈ s.children b) : a = b :=
  Option.some.inj ((h.child_parent ha hac).symm.trans (h.child_parent hb hbc))

/-- What is above a child is its parent or above that. -/
theorem above_child (h : s.Wired root) {a q c : Nat} (ha : root ≤ a) (hq : root ≤ q)
    (hc : c ∈ s.children q) (hac : s.Below a c) : s.AtOrBelow a q := by
  obtain ⟨q', hq', hc'⟩ := hac.exists_mem
  rwa [h.parent_unique hq (h.root_le_below ha hq') hc hc']

theorem below_root (h : s.Wired root) {d : Nat} (hd : root < d) (hlt : d < s.size) :
    s.Below root d := by
  induction d using Nat.strongRecOn with
  | ind d ih =>
    obtain ⟨q, hq, hm⟩ := h.exists_parent hd hlt
    have hqd := h.lt_child hq hm
    rcases Nat.eq_or_lt_of_le hq with rfl | hq
    · exact below_child hm
    · exact (ih q hqd hq (by omega)).trans (below_child hm)

/-- Of two nodes above the same node, one is above the other. -/
theorem comparable (h : s.Wired root) {a b x : Nat} (ha : root ≤ a) (hb : root ≤ b)
    (hax : s.Below a x) (hbx : s.Below b x) : a = b ∨ s.Below a b ∨ s.Below b a := by
  induction hax with
  | single hc =>
    rcases h.above_child hb ha hc hbx with e | hba
    · exact .inl e
    · exact .inr (.inr hba)
  | tail hay hc ih =>
    rcases h.above_child hb (h.root_le_below ha (.inr hay)) hc hbx with rfl | hby
    · exact .inr (.inl hay)
    · exact ih hby

/-- Nothing is at or below two children of one node. -/
theorem siblings_disjoint (h : s.Wired root) {i a b x : Nat} (hi : root ≤ i)
    (ha : a ∈ s.children i) (hb : b ∈ s.children i) (hax : s.AtOrBelow a x)
    (hbx : s.AtOrBelow b x) : a = b := by
  have hra := h.root_le_child hi ha
  have hrb := h.root_le_child hi hb
  have habsurd : ∀ {a b : Nat}, root ≤ a → a ∈ s.children i → b ∈ s.children i →
      ¬ s.Below a b := fun hra ha hb hab => by
    have := h.below_le hra (h.above_child hra hi hb hab)
    have := h.lt_child hi ha
    omega
  rcases hax with rfl | hax <;> rcases hbx with hbx | hbx
  · exact hbx
  · exact (habsurd hrb hb ha hbx).elim
  · subst hbx
    exact (habsurd hra ha hb hax).elim
  · rcases h.comparable hra hrb hax hbx with e | hab | hba
    · exact e
    · exact (habsurd hra ha hb hab).elim
    · exact (habsurd hrb hb ha hba).elim

theorem children_eq_map (h : s.Wired root) {i : Nat} (hi : root ≤ i) :
    (s.node i).children = (s.children i).map fun c => ((s.node c).name, c) := by
  rw [children, Entries.values, List.map_map]
  conv_lhs => rw [← List.map_id (s.node i).children]
  refine List.map_congr_left fun entry hm => ?_
  exact Prod.ext (h.key_eq hi hm) rfl

theorem nodup_names (h : s.Wired root) {i : Nat} (hi : root ≤ i) :
    ((s.children i).map fun c => (s.node c).name).Nodup := by
  have hn := h.nodup_keys hi
  rw [h.children_eq_map hi, Entries.keys, List.map_map] at hn
  exact hn

theorem nodup_children (h : s.Wired root) {i : Nat} (hi : root ≤ i) : (s.children i).Nodup :=
  (h.nodup_names hi).of_map _

/-- Lists of nodes at or below different children are disjoint. -/
theorem nodup_flatMap (h : s.Wired root) {i : Nat} (hi : root ≤ i) {cs : List NodeId}
    (hn : cs.Nodup) (hcs : ∀ c ∈ cs, c ∈ s.children i) {f : NodeId → List NodeId}
    (hf : ∀ c ∈ cs, (f c).Nodup) (hb : ∀ c ∈ cs, ∀ x ∈ f c, s.AtOrBelow c x) :
    (cs.flatMap f).Nodup := by
  rw [List.nodup_flatMap]
  refine ⟨hf, hn.imp_of_mem fun ha hb' hne => ?_⟩
  intro x hxa hxb
  exact hne (h.siblings_disjoint hi (hcs _ ha) (hcs _ hb') (hb _ ha x hxa) (hb _ hb' x hxb))

/-! ## Searches of bounded depth -/

/-- If a search of one level more only goes on below a node, every depth that reaches the end of
the schema gives the same. -/
theorem depth_irrelevant (h : s.Wired root) {α : Type} (search : Nat → Nat → α)
    (hstep : ∀ d d' i, root ≤ i → (∀ j, s.Below i j → search d j = search d' j) →
      search (d + 1) i = search (d' + 1) i)
    {d d' i : Nat} (hi : root ≤ i) (hlt : i < s.size) (hd : s.size ≤ i + d)
    (hd' : s.size ≤ i + d') : search d i = search d' i := by
  induction d generalizing d' i with
  | zero => omega
  | succ d ih =>
    obtain ⟨d', rfl⟩ : ∃ e, d' = e + 1 := ⟨d' - 1, by omega⟩
    refine hstep d d' i hi fun j hj => ?_
    have := h.below_lt hi hj
    exact ih (by omega) (by omega) (by omega) (by omega)

/-- So the depth that is always taken counts as one level more. -/
theorem depth_succ (h : s.Wired root) {α : Type} (search : Nat → Nat → α)
    (hstep : ∀ d d' i, root ≤ i → (∀ j, s.Below i j → search d j = search d' j) →
      search (d + 1) i = search (d' + 1) i)
    {i : Nat} (hi : root ≤ i) (hlt : i < s.size) :
    search s.size i = search (s.size + 1) i :=
  h.depth_irrelevant search hstep hi hlt (by omega) (by omega)

theorem subtree_eq (h : s.Wired root) {i : Nat} (hi : root ≤ i) (hlt : i < s.size) :
    s.subtree i = i :: (s.children i).flatMap s.subtree := by
  refine h.depth_succ s.subtreeWithin (fun d d' i _ hj => ?_) hi hlt
  rw [subtreeWithin, subtreeWithin]
  exact congrArg _ (List.flatMap_congr fun c hc => hj c (below_child hc))

theorem mem_subtree_iff (h : s.Wired root) {i d : Nat} (hi : root ≤ i) (hlt : i < s.size) :
    d ∈ s.subtree i ↔ s.AtOrBelow i d := by
  induction i, hi, hlt using h.induction_down with
  | step i hi hlt ih =>
    rw [h.subtree_eq hi hlt, List.mem_cons, List.mem_flatMap]
    refine or_congr_right ⟨fun ⟨c, hc, hd⟩ => ?_, fun hd => ?_⟩
    · exact (below_child hc).trans_at ((ih c (below_child hc)).1 hd)
    · obtain ⟨c, hc, hd⟩ := hd.exists_child
      exact ⟨c, hc, (ih c (below_child hc)).2 hd⟩

/-- The nodes from `root` on are those of the tree. -/
theorem mem_subtree_root_iff (h : s.Wired root) {i : Nat} :
    i ∈ s.subtree root ↔ root ≤ i ∧ i < s.size := by
  rw [h.mem_subtree_iff (Nat.le_refl _) h.root_lt_size]
  constructor
  · rintro (rfl | hb)
    · exact ⟨Nat.le_refl _, h.root_lt_size⟩
    · obtain ⟨hlt, hsize⟩ := h.below_lt (Nat.le_refl _) hb
      exact ⟨Nat.le_of_lt hlt, hsize⟩
  · rintro ⟨hi, hlt⟩
    rcases Nat.eq_or_lt_of_le hi with rfl | hi
    · exact .inl rfl
    · exact .inr (h.below_root hi hlt)

end Wired

theorem IsBuilt.range_of_mem_subtree (h : s.IsBuilt root) {r : Nat} (hr : r ∈ s.subtree root) :
    root ≤ r ∧ r < s.size :=
  h.wired.mem_subtree_root_iff.1 hr

end Schema

end DataTree
