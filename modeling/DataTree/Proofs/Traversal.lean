import DataTree.Proofs.Entities

/-!
# The order of a walk

`s.Traversal p i vs`: `vs` is the visit of `i` and then, in the order of their names, the
traversals of the containers and lists among its resolved children. A node has one traversal
(`Wired.traversal_iff`), and it is what a walk yields (`IsBuilt.yields_traversal`):
`s.Yields p r vs` says so for any number of steps. A walk that stops early has resolved just the
nodes it has shown, and from each node on it shows the walk of that node.
-/

namespace DataTree

/-- From an element on, a flattened list starts with the rest of the part where it stands. -/
theorem exists_part_of_getElem? {α β : Type} {f : α → List β} {cs : List α} {k : Nat} {b : β}
    (h : (cs.flatMap f)[k]? = some b) :
    ∃ c ∈ cs, ∃ j, (f c)[j]? = some b ∧ (f c).drop j <+: (cs.flatMap f).drop k := by
  induction cs generalizing k with
  | nil => cases h
  | cons c cs ih =>
    rw [List.flatMap_cons] at h ⊢
    rcases Nat.lt_or_ge k (f c).length with hlt | hge
    · rw [List.getElem?_append_left hlt] at h
      rw [List.drop_append_of_le_length (Nat.le_of_lt hlt)]
      exact ⟨c, List.mem_cons_self, k, h, List.prefix_append _ _⟩
    · rw [List.getElem?_append_right hge] at h
      rw [List.drop_append, List.drop_eq_nil_of_le hge, List.nil_append]
      obtain ⟨c', hc', hpart⟩ := ih h
      exact ⟨c', List.mem_cons_of_mem _ hc', hpart⟩

/-- The event of resolving a node, be it read-only or not. -/
def Event.isResolution : Event → Bool
  | readOnly .. | resolved .. => true
  | _ => false

/-- The event of the resolution that a visit shows. -/
def Visit.resolution (s : Schema) (p : Policy) (v : Visit) : Event :=
  if s.admits p v.node then .resolved (v.path s) p v.resolved.size v.resolved.defects.length
  else .readOnly (v.path s) p

namespace Schema

/-- All have names, and each name is less than those that follow. -/
def Ascending (s : Schema) (cs : List NodeId) : Prop :=
  cs.Pairwise fun a b => ∃ x y : String,
    (s.node a).name = some x ∧ (s.node b).name = some y ∧ x < y

inductive Traversal (s : Schema) (p : Policy) : NodeId → List Visit → Prop
  | node {i : NodeId} {cs : List NodeId} {parts : List (List Visit)} : s.Ascending cs →
      (∀ c, c ∈ cs ↔ c ∈ (s.resolve p i).children.values ∧ (s.node c).kind.isEntity = true) →
      List.Forall₂ (s.Traversal p) cs parts →
      s.Traversal p i (s.visit p i :: parts.flatten)

/-- The walk from `r` goes through `vs`. -/
structure Yields (s : Schema) (p : Policy) (r : NodeId) (vs : List Visit) : Prop where
  all : (Walk.start p r).visits s = vs
  next : ∀ k, (((Walk.start p r).take s k).later.next s).shown = vs[k]?
  /-- A step reports the resolution that it shows, and no other. -/
  step : ∀ k, (((Walk.start p r).take s k).later.next s).events.filter Event.isResolution =
    (vs[k]?.map (Visit.resolution s p)).toList
  first : ∀ k strict, (Plan.firstVisits ⟨p, strict⟩ s r k).outcome = .ok (vs.take k)
  resolutions : ∀ k strict,
    (Plan.firstVisits ⟨p, strict⟩ s r k).events.filter Event.isResolution =
      (vs.take k).map (Visit.resolution s p)
  segment : ∀ {k v}, vs[k]? = some v → (Walk.start p v.node).visits s <+: vs.drop k

variable {s : Schema} {root r : Nat} {p : Policy}

/-! ## Children in the order of their names -/

theorem Ascending.nodup {cs : List NodeId} (h : s.Ascending cs) : cs.Nodup := by
  refine List.Pairwise.imp ?_ h
  rintro a _ ⟨x, y, hx, hy, hlt⟩ rfl
  cases hx.symm.trans hy
  exact String.lt_irrefl x hlt

theorem Ascending.eq_of_mem_iff {cs cs' : List NodeId} (h : s.Ascending cs)
    (h' : s.Ascending cs') (hm : ∀ c, c ∈ cs ↔ c ∈ cs') : cs = cs' := by
  refine List.Perm.eq_of_pairwise ?_ h h' ((List.perm_ext_iff_of_nodup h.nodup h'.nodup).2 hm)
  rintro a b - - ⟨x, y, hx, hy, hlt⟩ ⟨y', x', hy', hx', hlt'⟩
  cases hx.symm.trans hx'
  cases hy.symm.trans hy'
  exact (String.lt_asymm hlt hlt').elim

theorem Wired.ascending_entityChildren (h : s.Wired root) {i : Nat} (hi : root ≤ i) (p : Policy) :
    s.Ascending (s.entityChildren p i) := by
  have hperm := Entries.orderedBy_perm Name.le (s.resolve p i).children
  have hle := Entries.pairwise_keys_orderedBy (s.resolve p i).children
  have hne : ((s.resolve p i).children.orderedBy Name.le).keys.Nodup :=
    (hperm.map Prod.fst).nodup_iff.2 (nodup_keys_resolve p i)
  have hkey : ∀ {e : Name × NodeId}, e ∈ (s.resolve p i).children.orderedBy Name.le →
      ∃ x : String, (s.node e.2).name = some x ∧ e.1 = some x := fun he => by
    obtain ⟨hc, hname⟩ := mem_candidates_of_mem_resolve (hperm.mem_iff.1 he)
    obtain ⟨x, hx⟩ := h.named_of_below hi (h.below_of_mem_candidates hi hc)
    exact ⟨x, hx, hname.symm.trans hx⟩
  have hboth := List.pairwise_map.1 (hle.and hne)
  refine List.Pairwise.filter _ (List.pairwise_map.2 (hboth.imp_of_mem fun ha hb hab => ?_))
  obtain ⟨x, hx, hxe⟩ := hkey ha
  obtain ⟨y, hy, hye⟩ := hkey hb
  rw [hxe, hye] at hab
  obtain ⟨hle, hne⟩ := hab
  have hle : x ≤ y := of_decide_eq_true hle
  refine ⟨x, y, hx, hy, ?_⟩
  by_contra hlt
  exact hne (congrArg some (String.le_antisymm hle (String.not_lt.1 hlt)))

/-! ## One traversal -/

namespace Wired

theorem traversal_entities (h : s.Wired root) {i : Nat} (hi : root ≤ i) (hlt : i < s.size) :
    s.Traversal p i ((s.entities p i).map (s.visit p)) := by
  induction i, hi, hlt using h.induction_down with
  | step i hi hlt ih =>
    have hparts : List.Forall₂ (s.Traversal p) (s.entityChildren p i)
        ((s.entityChildren p i).map fun c => (s.entities p c).map (s.visit p)) := by
      rw [List.forall₂_map_right_iff, List.forall₂_same]
      exact fun c hc => ih c (h.below_of_mem_entityChildren hi hc)
    rw [h.entities_eq hi hlt, List.map_cons, List.map_flatMap, List.flatMap_def]
    exact .node (h.ascending_entityChildren hi p) (fun c => mem_entityChildren_iff) hparts

theorem traversal_iff (h : s.Wired root) {i : Nat} (hi : root ≤ i) (hlt : i < s.size)
    {vs : List Visit} : s.Traversal p i vs ↔ vs = (s.entities p i).map (s.visit p) := by
  constructor
  · intro ht
    induction i, hi, hlt using h.induction_down generalizing vs with
    | step i hi hlt ih =>
      obtain ⟨hasc, hmem, hparts⟩ := ht
      rename_i cs parts
      have hcs : cs = s.entityChildren p i :=
        hasc.eq_of_mem_iff (h.ascending_entityChildren hi p) fun c =>
          (hmem c).trans mem_entityChildren_iff.symm
      have hall : cs.map (fun c => (s.entities p c).map (s.visit p)) = parts := by
        rw [← List.forall₂_eq_eq_eq, List.forall₂_map_left_iff]
        refine ((List.forall₂_and_left _ _).2 ⟨fun c hc => hc, hparts⟩).imp fun c part hc => ?_
        have hb := h.below_of_mem_entityChildren hi (hcs ▸ hc.1)
        exact (ih c hb hc.2).symm
      rw [h.entities_eq hi hlt, List.map_cons, List.map_flatMap, List.flatMap_def, ← hall, hcs]
  · rintro rfl
    exact h.traversal_entities hi hlt

/-- From a visited node on, the walk is that of the node, and then goes on. -/
theorem entities_prefix_drop (h : s.Wired root) {i j : Nat} (hi : root ≤ i) (hlt : i < s.size)
    {k : Nat} (hk : (s.entities p i)[k]? = some j) :
    s.entities p j <+: (s.entities p i).drop k := by
  induction i, hi, hlt using h.induction_down generalizing k with
  | step i hi hlt ih =>
    rw [h.entities_eq hi hlt] at hk ⊢
    cases k with
    | zero =>
      cases hk
      rw [h.entities_eq hi hlt]
      exact List.prefix_rfl
    | succ k =>
      obtain ⟨c, hc, k', hk', hpre⟩ := exists_part_of_getElem? hk
      exact (ih c (h.below_of_mem_entityChildren hi hc) hk').trans hpre

end Wired

/-! ## What a walk yields -/

theorem filter_isResolution_map {α : Type} {f : α → Event} (hf : ∀ a, (f a).isResolution = false)
    (as : List α) : (as.map f).filter Event.isResolution = [] := by
  rw [List.filter_eq_nil_iff, List.forall_mem_map]
  intro a _
  simp [hf a]

theorem filter_isResolution_resolveEvents (p : Policy) (i : NodeId) :
    (s.resolveEvents p i).filter Event.isResolution = [(s.visit p i).resolution s p] := by
  have hresolution : (s.visit p i).resolution s p = if s.admits p i then
      .resolved (s.node i).path p (s.resolve p i).size (s.resolve p i).defects.length
      else .readOnly (s.node i).path p := rfl
  rw [hresolution, resolveEvents]
  by_cases ha : s.admits p i = true
  · simp only [if_pos ha, List.filter_append]
    rw [filter_isResolution_map fun _ => rfl]
    rfl
  · simp only [if_neg ha]
    rfl

/-- A visit reports one resolution. -/
theorem filter_isResolution_events (p : Policy) (i : NodeId) :
    ((s.visit p i).events s p).filter Event.isResolution = [(s.visit p i).resolution s p] := by
  have hevents : (s.visit p i).events s p = s.resolveEvents p i ++
      (s.resolve p i).defects.map (.defect (s.node i).path) ++
        [.visited (s.node i).path (s.resolve p i).size] := rfl
  rw [hevents, List.filter_append, List.filter_append, filter_isResolution_resolveEvents,
    filter_isResolution_map fun _ => rfl]
  rfl

theorem Wired.firstVisits_eq (h : s.Wired root) (hr : root ≤ r) (hlt : r < s.size) (strict : Bool)
    (k : Nat) : Plan.firstVisits ⟨p, strict⟩ s r k =
      ⟨(((s.entities p r).take k).map (s.visit p)).flatMap (Visit.events s p),
        .ok (((s.entities p r).take k).map (s.visit p))⟩ := by
  have htake := h.take_eq k (Walk.within_start p hr hlt)
  rw [Walk.remaining_start] at htake
  unfold Plan.firstVisits Plan.walk
  simp only [Walk.take_events, htake]
  rfl

theorem Wired.yields (h : s.Wired root) (hr : root ≤ r) (hlt : r < s.size) :
    s.Yields p r ((s.entities p r).map (s.visit p)) := by
  have hstart := Walk.within_start p hr hlt
  -- what the next step is after `k` of them
  have hnext : ∀ k, ((s.entities p r)[k]? = none ∧
        ((Walk.start p r).take s k).later.next s = ⟨none, [], ⟨p, [], []⟩⟩) ∨
      ∃ (i : NodeId) (later : Walk), (s.entities p r)[k]? = some i ∧
        ((Walk.start p r).take s k).later.next s =
          ⟨some (s.visit p i), (s.visit p i).events s p, later⟩ := fun k => by
    obtain ⟨hrem, hwithin, hpol⟩ := h.remaining_take k hstart
    have hpol : ((Walk.start p r).take s k).later.policy = p := hpol
    rw [Walk.remaining_start] at hrem
    rw [← List.head?_drop, ← hrem]
    rcases h.next_cases hwithin with ⟨hnil, hnext⟩ | ⟨i, later, hnext, hcons, -⟩
    · rw [hpol] at hnext
      exact .inl ⟨by rw [hnil]; rfl, hnext⟩
    · rw [hpol] at hnext
      exact .inr ⟨i, later, by rw [hcons]; rfl, hnext⟩
  refine ⟨h.visits_eq p hr hlt, fun k => ?next, fun k => ?step, fun k strict => ?first,
    fun k strict => ?resolutions, fun {k v} hk => ?segment⟩
  case next =>
    rw [List.getElem?_map]
    rcases hnext k with ⟨hk, hstep⟩ | ⟨i, later, hk, hstep⟩ <;> rw [hk, hstep] <;> rfl
  case step =>
    rw [List.getElem?_map]
    rcases hnext k with ⟨hk, hstep⟩ | ⟨i, later, hk, hstep⟩ <;> rw [hk, hstep]
    · rfl
    · exact filter_isResolution_events p i
  case first =>
    rw [h.firstVisits_eq hr hlt, List.map_take]
  case resolutions =>
    rw [h.firstVisits_eq hr hlt, ← List.map_take, List.filter_flatMap, List.flatMap_map,
      List.map_map]
    induction (s.entities p r).take k with
    | nil => rfl
    | cons i is ih =>
      rw [List.flatMap_cons, filter_isResolution_events, ih]
      rfl
  case segment =>
    rw [List.getElem?_map] at hk
    obtain ⟨i, hi, rfl⟩ := Option.map_eq_some_iff.1 hk
    have hwalk := (h.mem_entities_iff hr hlt).1 (List.mem_of_getElem? hi)
    have hvisits := h.visits_eq p (hwalk.root_le h hr) (hwalk.lt_size h hr hlt)
    rw [← List.map_drop]
    exact hvisits ▸ (h.entities_prefix_drop hr hlt hi).map (s.visit p)

/-- A walk yields the one traversal of its root, step by step. -/
theorem IsBuilt.yields_traversal (h : s.IsBuilt root) (hr : r ∈ s.subtree root) (p : Policy) :
    ∃ vs, s.Traversal p r vs ∧ (∀ vs', s.Traversal p r vs' → vs' = vs) ∧ s.Yields p r vs := by
  obtain ⟨hle, hlt⟩ := h.range_of_mem_subtree hr
  exact ⟨_, h.wired.traversal_entities hle hlt, fun vs' => (h.wired.traversal_iff hle hlt).1,
    h.wired.yields hle hlt⟩

/-- A shelf whose boxes are declared from the last name to the first, one with boxes in it. -/
def shelfDescription : Value :=
  .map [("children", .map [
    ("top", .map [("children", .map [
      ("red", .map [("children", .map [("tag", .map [])])]),
      ("pick", .map [("kind", .str "choice"), ("children", .map [
        ("blue", .map [("kind", .str "list"), ("children", .map [("tag", .map [])])])])])])]),
    ("low", .map [("children", .map [("tag", .map [])])])])]

def shelfSchema : Schema :=
  ((empty.build shelfDescription (some "shelf") none).toOption).getD empty

theorem shelfSchema_isBuilt : shelfSchema.IsBuilt 0 :=
  ⟨empty, shelfDescription, some "shelf", none, nofun, rfl, rfl⟩

theorem yields_traversal_shelfSchema :
    shelfSchema.IsBuilt 0 ∧ 0 ∈ shelfSchema.subtree 0 ∧
      ∃ vs, shelfSchema.Traversal .uncompressed 0 vs ∧
        (∀ vs', shelfSchema.Traversal .uncompressed 0 vs' → vs' = vs) ∧
        shelfSchema.Yields .uncompressed 0 vs := by
  have hr : 0 ∈ shelfSchema.subtree 0 := by decide
  exact ⟨shelfSchema_isBuilt, hr, shelfSchema_isBuilt.yields_traversal hr .uncompressed⟩

example : ((Walk.start .uncompressed 0).visits shelfSchema).map (Visit.path shelfSchema) =
    ["/shelf", "/shelf/low", "/shelf/top", "/shelf/top/pick/blue", "/shelf/top/red"] := by
  cbv

end Schema

end DataTree
