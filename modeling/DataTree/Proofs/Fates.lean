import DataTree.Proofs.Ownership
import DataTree.Proofs.Standing

/-!
# What becomes of a node under compression

Where nothing is left out for being read-only, every data node below the root of a walk has exactly
one fate (`IsBuilt.fate_unique`):

* `kept`: it is a resolved child of a visited node.
* `elided`: its parent is visited and offers what lies below it instead.
* `keyReference`: its parent is a visited list, of which it is a leafref.
* `lost`: it is at or below a node that lost its name to another child of a visited node. Either
  this is on record, or the preferred side has a member of that name (`s.GivesWay p n x`).

The fate of a node follows from that of the nearest data node above it (`Wired.exists_fate`).
-/

namespace DataTree

variable {s : Schema} {root r : Nat} {p : Policy}

/-! ## Losing a name -/

namespace Collector

variable {c : Collector} {o : Offer} {offers : List Offer} {x : Nat}

/-- An offer under a name that is taken goes on record or gives way. -/
theorem duplicate_or_deferred_of_taken (ho : o.candidate? = some x)
    (hk : (s.node x).name ∈ c.children.keys) :
    duplicate s x ∈ c.complaints s o ∨ o = .deferred x ∧ (s.node x).name ∈ c.reserved := by
  cases o with
  | nested y => cases ho
  | plain y | preferred y =>
    cases ho
    rw [complaints, if_pos hk]
    exact .inl (List.mem_singleton_self _)
  | deferred y =>
    cases ho
    by_cases hr : (s.node x).name ∈ c.reserved
    · exact .inr ⟨rfl, hr⟩
    · rw [complaints, if_pos ⟨hk, hr⟩]
      exact .inl (List.mem_singleton_self _)

/-- An offer under a new name is kept to the end. -/
theorem get?_of_new (hc : c.Sound) (ho : o.candidate? = some x)
    (hk : (s.node x).name ∉ c.children.keys) :
    (offers.foldl (Collector.take s) (c.take s o)).children.get? (s.node x).name = some x := by
  rw [foldl_take_children (hc.take o), take_children hc, ho, Schema.get?_foldl_keep]
  rw [← Entries.get?_eq_none_iff] at hk
  simp [Schema.keep, Entries.get?_addNew, hk]

/-- An offer that is not kept is on record, or gave way to one that reserved its name. -/
theorem duplicate_or_deferred (hc : c.Sound) (hx : x ∈ offers.filterMap Offer.candidate?)
    (hl : (offers.foldl (Collector.take s) c).children.get? (s.node x).name ≠ some x) :
    duplicate s x ∈ (offers.foldl (Collector.take s) c).defects ∨
      .deferred x ∈ offers ∧ ((s.node x).name ∈ c.reserved ∨
        ∃ y, .preferred y ∈ offers ∧ (s.node y).name = (s.node x).name) := by
  induction offers generalizing c with
  | nil => cases hx
  | cons o offers ih =>
    rw [List.foldl_cons] at hl ⊢
    obtain ⟨o', ho', ho⟩ := List.mem_filterMap.1 hx
    rcases List.mem_cons.1 ho' with rfl | ho'
    · by_cases hk : (s.node x).name ∈ c.children.keys
      · rcases duplicate_or_deferred_of_taken ho hk with hd | ⟨rfl, hr⟩
        · refine .inl ((defects_prefix_foldl_take offers).subset ?_)
          rw [take_defects]
          exact List.mem_append_right _ hd
        · exact .inr ⟨List.mem_cons_self, .inl hr⟩
      · exact (hl (get?_of_new hc ho hk)).elim
    · rcases ih (hc.take o) (List.mem_filterMap.2 ⟨o', ho', ho⟩) hl with hd | ⟨hd, hr⟩
      · exact .inl hd
      · refine .inr ⟨List.mem_cons_of_mem _ hd, ?_⟩
        rcases hr with hr | ⟨y, hy, hn⟩
        · rw [take_reserved] at hr
          rcases List.mem_append.1 hr with hr | hr
          · cases o with
            | preferred y => exact .inr ⟨y, List.mem_cons_self, (List.mem_singleton.1 hr).symm⟩
            | _ => cases hr
          · exact .inl hr
        · exact .inr ⟨y, List.mem_cons_of_mem _ hy, hn⟩

end Collector

namespace Schema

/-- `x` is a member of the other side at `n`, and the preferred side has one of that name. -/
def GivesWay (s : Schema) (p : Policy) (n x : NodeId) : Prop :=
  ∃ side, p.preferred? = some side ∧
    (∃ a ∈ s.children n, (s.node a).side? = some side.other ∧ x ∈ s.members a) ∧
    ∃ b ∈ s.children n, (s.node b).side? = some side ∧
      ∃ y ∈ s.members b, (s.node y).name = (s.node x).name

/-- Only a side makes offers that reserve a name or give way. -/
theorem Wired.exists_side_of_offer (h : s.Wired root) {n : Nat} (hn : root ≤ n) {o : Offer}
    (ho : o ∈ s.offers p n) (hplain : ∀ x, o ≠ .plain x) (hnote : ∀ x, o ≠ .nested x) :
    ∃ side, p.preferred? = some side ∧ ∃ a ∈ s.children n, ∃ x ∈ s.members a,
      (s.node a).side? = some side ∧ o = .preferred x ∨
      (s.node a).side? = some side.other ∧ o = .deferred x := by
  rw [offers_eq_flatMap, List.mem_flatMap] at ho
  obtain ⟨a, ha, ho⟩ := ho
  unfold childOffers at ho
  cases hp : p.preferred? with
  | none =>
    simp only [hp] at ho
    split at ho
    · obtain ⟨x, -, rfl⟩ := List.mem_map.1 ho
      exact (hplain x rfl).elim
    · cases ho
  | some side =>
    simp only [hp] at ho
    exact ⟨side, rfl, a, h.mem_children_of_considered hn ha,
      side_of_compressedOffers ho hplain hnote⟩

theorem Wired.givesWay (h : s.Wired root) {n x y : Nat} (hn : root ≤ n)
    (hx : .deferred x ∈ s.offers p n) (hy : .preferred y ∈ s.offers p n)
    (hname : (s.node y).name = (s.node x).name) : s.GivesWay p n x := by
  obtain ⟨side, hp, a, ha, x', hxa, e⟩ := h.exists_side_of_offer hn hx nofun nofun
  obtain ⟨side', hp', b, hb, y', hyb, e'⟩ := h.exists_side_of_offer hn hy nofun nofun
  cases hp.symm.trans hp'
  rcases e with ⟨-, e⟩ | ⟨hs, e⟩ <;> cases e
  rcases e' with ⟨hs', e'⟩ | ⟨-, e'⟩ <;> cases e'
  exact ⟨side, hp, ⟨a, ha, hs, hxa⟩, b, hb, hs', y, hyb, hname⟩

/-- An offer that is not kept lost its name to another node, and where that is not on record, the
preferred side took it. -/
theorem Wired.loses_name (h : s.Wired root) {n x : Nat} (hn : root ≤ n)
    (ha : s.admits p n = true) (hx : x ∈ s.candidates p n)
    (hl : x ∉ (s.resolve p n).children.values) :
    (∃ y, (s.resolve p n).children.get? (s.node x).name = some y ∧ y ≠ x) ∧
      (Collector.duplicate s x ∈ (s.resolve p n).defects ∨ s.GivesWay p n x) := by
  have hget : ∀ y, (s.resolve p n).children.get? (s.node x).name = some y → y ≠ x := by
    rintro y hy rfl
    exact hl (Entries.mem_values_of_mem (Entries.mem_of_get? hy))
  constructor
  · rw [resolve_children_eq, if_pos ha] at hget ⊢
    have hkey : (s.node x).name ∈ (s.firsts (s.candidates p n)).keys :=
      mem_keys_firsts_iff.2 ⟨x, hx, rfl⟩
    obtain ⟨y, hy⟩ := Option.isSome_iff_exists.1 (Entries.has_iff_mem_keys.2 hkey)
    exact ⟨y, hy, hget y hy⟩
  · have hr : s.resolve p n = .ofOffers s (s.offers p n) := if_pos ha
    rw [hr] at hget ⊢
    rcases Collector.duplicate_or_deferred Collector.sound_empty hx fun e => hget x e rfl with
      hd | ⟨hd, hres | ⟨y, hy, hname⟩⟩
    · exact .inl hd
    · cases hres
    · exact .inr (h.givesWay hn hd hy hname)

end Schema

/-! ## Fates -/

inductive Fate where
  | kept
  | elided
  | keyReference
  | lost
  deriving DecidableEq, Repr

namespace Schema

/-- `x` was offered to a visited node and did not get its name. -/
structure Loses (s : Schema) (p : Policy) (visits : List Visit) (v : Visit) (x : NodeId) :
    Prop where
  offered : x ∈ s.candidates p v.node
  taken : ∃ y, v.resolved.children.get? (s.node x).name = some y ∧ y ≠ x
  accounted : Collector.duplicate s x ∈ Plan.defects visits ∨ s.GivesWay p v.node x

/-- What each fate says of `d`, for the visits of one walk. -/
def Fated (s : Schema) (p : Policy) (visits : List Visit) (d : NodeId) : Fate → Prop
  | .kept => ∃ v ∈ visits, d ∈ v.resolved.children.values
  | .elided => ∃ v ∈ visits, d ∈ s.children v.node ∧
    ((s.node d).side?.isSome = true ∨ (s.node d).kind.isEntity = true ∧
      ∃ inner, s.children d = [inner] ∧ (s.node inner).kind = .list)
  | .keyReference => (s.node d).kind = .leafref ∧
    ∃ v ∈ visits, d ∈ s.children v.node ∧ (s.node v.node).kind = .list
  | .lost => ∃ v ∈ visits, ∃ x, s.AtOrBelow x d ∧ s.Loses p visits v x

/-- What elides a data node. -/
theorem elides_iff {d : Nat} (hp : p.compresses = true) (hd : (s.node d).kind.isWrapper = false) :
    s.elides p d = true ↔ (s.node d).side?.isSome = true ∨ (s.node d).kind.isEntity = true ∧
      ∃ inner, s.children d = [inner] ∧ (s.node inner).kind = .list := by
  rw [elides, hp, Bool.true_and, Bool.or_eq_true]
  refine or_congr_right ?_
  rw [Option.isSome_iff_exists]
  constructor
  · rintro ⟨inner, hi⟩
    obtain ⟨hk, hc, hl⟩ := soleList?_eq_some_iff.1 hi
    rw [Kind.isDirectory, hd, Bool.or_false] at hk
    exact ⟨hk, inner, hc, hl⟩
  · rintro ⟨hk, inner, hc, hl⟩
    exact ⟨inner, soleList?_eq_some_iff.2 ⟨by rw [Kind.isDirectory, hk, Bool.true_or], hc, hl⟩⟩

/-- An elided child offers what its children expose. -/
theorem route_of_elides (hp : p.compresses = true) (hs : p.excludesState = false)
    {n q m x : Nat} (hel : s.elides p q = true) (hm : m ∈ s.children q) (hx : s.Exposes m x) :
    s.Route p n q x := by
  rw [elides, hp, Bool.true_and, Bool.or_eq_true] at hel
  cases hside : (s.node q).side? with
  | some side => exact .lifted hp (by rw [hside]; rfl) hm hx
  | none =>
    rw [hside] at hel
    obtain ⟨inner, hi⟩ := Option.isSome_iff_exists.1 (hel.resolve_left (by decide))
    obtain ⟨-, hcs, hlist⟩ := soleList?_eq_some_iff.1 hi
    rw [hcs, List.mem_singleton] at hm
    subst hm
    cases hx.eq_of_data (by rw [hlist]; rfl)
    exact .sole hp hside hi (by simp [admits, hs])

/-! ### A node has one fate at most -/

namespace Wired

/-- Nothing is owned at or below a lost node, unless its owner is there too. -/
theorem not_owned_of_lost (h : s.Wired root) (hr : root ≤ r) {n x e d : Nat}
    (hn : s.Walked p r n) (hx : x ∈ s.candidates p n)
    (hl : x ∉ (s.resolve p n).children.values) (he : s.Walked p r e)
    (hd : d ∈ (s.resolve p e).children.values) (hxe : ¬ s.AtOrBelow x e) : ¬ s.AtOrBelow x d := by
  intro hxd
  have hrn := hn.root_le h hr
  have hre := he.root_le h hr
  have hoff := mem_candidates_of_mem_values hd
  rcases hxd with rfl | hxd
  · cases h.offered_once hr hn he hx hoff
    exact hl hd
  have hrx := h.root_le_below hrn (.inr (h.below_of_mem_candidates hrn hx))
  rcases h.comparable hrx hre hxd (h.below_of_mem_candidates hre hoff) with rfl | hb | hex
  · exact hxe (.inl rfl)
  · exact hxe (.inr hb)
  · -- the lost node lies between its owner's parent and the owned one, so it was elided there
    obtain ⟨m, hm, -, hroute⟩ := (h.mem_candidates_iff hre).1 hoff
    have hm := h.mem_children_of_considered hre hm
    obtain ⟨rfl, hel⟩ := hroute.elided_of_between h hre hm hex hxd (h.data_of_mem_candidates hrn hx)
    cases h.eq_parent_of_offered hr he hn hm hx
    exact h.not_mem_candidates_of_elides hre hm hel hx

/-- Nothing is visited at or below a lost node. -/
theorem not_walked_of_lost (h : s.Wired root) (hr : root ≤ r) {n x e : Nat}
    (hn : s.Walked p r n) (hx : x ∈ s.candidates p n)
    (hl : x ∉ (s.resolve p n).children.values) (he : s.Walked p r e) : ¬ s.AtOrBelow x e := by
  induction he with
  | root =>
    intro hxr
    have hrn := hn.root_le h hr
    have hrx := (hn.atOrBelow h hr).trans_below (h.below_of_mem_candidates hrn hx)
    exact h.below_ne hr (hrx.trans_at hxr) rfl
  | step he hc ih => exact h.not_owned_of_lost hr hn hx hl he (mem_entityChildren_iff.1 hc).1 ih

/-- A lost node with a visited parent was offered to it. -/
theorem offered_by_parent_of_lost (h : s.Wired root) (hr : root ≤ r) {n x q d : Nat}
    (hn : s.Walked p r n) (hx : x ∈ s.candidates p n)
    (hl : x ∉ (s.resolve p n).children.values) (hxd : s.AtOrBelow x d) (hq : s.Walked p r q)
    (hd : d ∈ s.children q) : d ∈ s.candidates p q := by
  have hrn := hn.root_le h hr
  have hrq := hq.root_le h hr
  have hrx := h.root_le_below hrn (.inr (h.below_of_mem_candidates hrn hx))
  rcases hxd with rfl | hxd
  · cases h.eq_parent_of_offered hr hq hn hd hx
    exact hx
  · exact (h.not_walked_of_lost hr hn hx hl hq (h.above_child hrx hrq hd hxd)).elim

theorem exists_visit_iff (h : s.Wired root) (hr : root ≤ r) (hlt : r < s.size)
    {P : Visit → Prop} : (∃ v ∈ (Walk.start p r).visits s, P v) ↔
      ∃ i : Nat, s.Walked p r i ∧ P (s.visit p i) := by
  constructor
  · rintro ⟨v, hv, hP⟩
    obtain ⟨i, hi, rfl⟩ := (h.mem_visits_iff hr hlt).1 hv
    exact ⟨i, hi, hP⟩
  · rintro ⟨i, hi, hP⟩
    exact ⟨s.visit p i, (h.mem_visits_iff hr hlt).2 ⟨i, hi, rfl⟩, hP⟩

theorem not_kept_of_loses (p : Policy) {i x : Nat} {visits : List Visit}
    (hx : s.Loses p visits (s.visit p i) x) : x ∉ (s.resolve p i).children.values := by
  intro hm
  obtain ⟨y, hy, hne⟩ := hx.taken
  obtain ⟨key, hm⟩ := Entries.exists_mem_of_mem_values hm
  have hname := (mem_candidates_of_mem_resolve hm).2
  have hget := Entries.get?_of_mem (nodup_keys_resolve p i) (hname ▸ hm)
  exact hne (Option.some.inj (hy.symm.trans hget))

/-- A node that a visited parent passes over is not offered to it. -/
theorem passed_over (h : s.Wired root) (hr : root ≤ r) (hlt : r < s.size)
    (hp : p.compresses = true) {d : Nat} (hw : (s.node d).kind.isWrapper = false)
    (hf : s.Fated p ((Walk.start p r).visits s) d .elided ∨
      s.Fated p ((Walk.start p r).visits s) d .keyReference) :
    ∃ q : Nat, s.Walked p r q ∧ d ∈ s.children q ∧ d ∉ s.candidates p q := by
  rcases hf with hf | ⟨hleaf, hf⟩
  · obtain ⟨q, hq, hd, hel⟩ := (h.exists_visit_iff hr hlt).1 hf
    have hrq := hq.root_le h hr
    exact ⟨q, hq, hd, h.not_mem_candidates_of_elides hrq hd ((elides_iff hp hw).2 hel)⟩
  · obtain ⟨q, hq, hd, hlist⟩ := (h.exists_visit_iff hr hlt).1 hf
    have hrq := hq.root_le h hr
    have hk : s.isKeyReference q d = true := decide_eq_true ⟨hlist, hleaf⟩
    exact ⟨q, hq, hd, h.not_mem_candidates_of_isKeyReference hrq hd hp hk⟩

theorem not_kept_of_passed_over (h : s.Wired root) (hr : root ≤ r) (hlt : r < s.size) {q d : Nat}
    (hq : s.Walked p r q) (hd : d ∈ s.children q) (hoff : d ∉ s.candidates p q) :
    ¬ s.Fated p ((Walk.start p r).visits s) d .kept := by
  intro hf
  obtain ⟨e, he, hm⟩ := (h.exists_visit_iff hr hlt).1 hf
  have hm := mem_candidates_of_mem_values hm
  cases h.eq_parent_of_offered hr hq he hd hm
  exact hoff hm

theorem not_lost_of_passed_over (h : s.Wired root) (hr : root ≤ r) (hlt : r < s.size) {q d : Nat}
    (hq : s.Walked p r q) (hd : d ∈ s.children q) (hoff : d ∉ s.candidates p q) :
    ¬ s.Fated p ((Walk.start p r).visits s) d .lost := by
  intro hf
  obtain ⟨n, hn, x, hxd, hx⟩ := (h.exists_visit_iff hr hlt).1 hf
  exact hoff (h.offered_by_parent_of_lost hr hn hx.offered (not_kept_of_loses p hx) hxd hq hd)

theorem not_lost_of_kept (h : s.Wired root) (hr : root ≤ r) (hlt : r < s.size) {d : Nat}
    (hf : s.Fated p ((Walk.start p r).visits s) d .kept) :
    ¬ s.Fated p ((Walk.start p r).visits s) d .lost := by
  intro hf'
  obtain ⟨e, he, hm⟩ := (h.exists_visit_iff hr hlt).1 hf
  obtain ⟨n, hn, x, hxd, hx⟩ := (h.exists_visit_iff hr hlt).1 hf'
  have hl := not_kept_of_loses p hx
  have hxe := h.not_walked_of_lost hr hn hx.offered hl he
  exact h.not_owned_of_lost hr hn hx.offered hl he hm hxe hxd

/-- Two different fates exclude each other. -/
theorem fate_eq (h : s.Wired root) (hr : root ≤ r) (hlt : r < s.size) (hp : p.compresses = true)
    {d : Nat} (hw : (s.node d).kind.isWrapper = false) {f f' : Fate}
    (hf : s.Fated p ((Walk.start p r).visits s) d f)
    (hf' : s.Fated p ((Walk.start p r).visits s) d f') : f = f' := by
  have hover := h.passed_over hr hlt hp hw
  have hkind : s.Fated p ((Walk.start p r).visits s) d .elided →
      ¬ s.Fated p ((Walk.start p r).visits s) d .keyReference := by
    rintro ⟨-, -, -, hs | ⟨he, -⟩⟩ ⟨hleaf, -⟩
    · obtain ⟨side, hs⟩ := Option.isSome_iff_exists.1 hs
      have := (Node.side?_eq_some_iff.1 hs).1
      simp [hleaf] at this
    · simp [hleaf, Kind.isEntity] at he
  have hpass : ∀ {g g' : Fate}, g = .elided ∨ g = .keyReference → g' = .kept ∨ g' = .lost →
      s.Fated p ((Walk.start p r).visits s) d g → ¬ s.Fated p ((Walk.start p r).visits s) d g' := by
    intro g g' hg hg' hfg hfg'
    obtain ⟨q, hq, hd, hoff⟩ := hover (by rcases hg with rfl | rfl <;> simp [hfg])
    rcases hg' with rfl | rfl
    · exact h.not_kept_of_passed_over hr hlt hq hd hoff hfg'
    · exact h.not_lost_of_passed_over hr hlt hq hd hoff hfg'
  match f, f' with
  | .kept, .kept | .elided, .elided | .keyReference, .keyReference | .lost, .lost => rfl
  | .kept, .lost => exact (h.not_lost_of_kept hr hlt hf hf').elim
  | .lost, .kept => exact (h.not_lost_of_kept hr hlt hf' hf).elim
  | .elided, .keyReference => exact (hkind hf hf').elim
  | .keyReference, .elided => exact (hkind hf' hf).elim
  | .elided, .kept | .elided, .lost | .keyReference, .kept | .keyReference, .lost =>
    exact (hpass (by simp) (by simp) hf hf').elim
  | .kept, .elided | .lost, .elided | .kept, .keyReference | .lost, .keyReference =>
    exact (hpass (by simp) (by simp) hf' hf).elim

/-! ### A node has a fate -/

/-- The nearest data node above a data node, and its child on the way down. -/
theorem exists_holder (h : s.Wired root) (hr : root ≤ r)
    (hrw : (s.node r).kind.isWrapper = false) {d : Nat} (hd : s.Below r d) :
    ∃ q : Nat, s.AtOrBelow r q ∧ (s.node q).kind.isWrapper = false ∧
      ∃ m ∈ s.children q, s.AtOrBelow m d ∧ ∀ {e : Nat}, s.AtOrBelow m e → s.Below e d →
        (s.node e).kind.isWrapper = true := by
  have hnone : ∀ {c e : Nat}, root ≤ c → s.AtOrBelow c e → ¬ s.Below e c := fun hc he hec => by
    have := h.below_le hc he
    have := (h.below_lt (h.root_le_below hc he) hec).1
    omega
  induction hd with
  | single hc =>
    refine ⟨r, .inl rfl, hrw, _, hc, .inl rfl, fun he hec => ?_⟩
    exact (hnone (h.root_le_child hr hc) he hec).elim
  | @tail b c hb hc ih =>
    have hrb := h.root_le_below hr (.inr hb)
    cases hbw : (s.node b).kind.isWrapper with
    | false =>
      refine ⟨b, .inr hb, hbw, c, hc, .inl rfl, fun he hec => ?_⟩
      exact (hnone (h.root_le_child hrb hc) he hec).elim
    | true =>
      obtain ⟨q, hq, hqw, m, hm, hmb, hbetween⟩ := ih
      have hrm := h.root_le_child (h.root_le_below hr hq) hm
      refine ⟨q, hq, hqw, m, hm, .inr (hmb.trans_below (below_child hc)), fun {e} he hec => ?_⟩
      rcases h.above_child (h.root_le_below hrm he) hrb hc hec with rfl | heb
      · exact hbw
      · exact hbetween he heb

/-- What is offered to a visited node is kept or lost there. -/
theorem fated_of_offered (h : s.Wired root) (hr : root ≤ r) (hlt : r < s.size)
    (hs : p.excludesState = false) {n x : Nat} (hn : s.Walked p r n)
    (hx : x ∈ s.candidates p n) : ∃ f, s.Fated p ((Walk.start p r).visits s) x f := by
  have hrn := hn.root_le h hr
  have hv := (h.mem_visits_iff hr hlt).2 ⟨n, hn, rfl⟩
  by_cases hk : x ∈ (s.resolve p n).children.values
  · exact ⟨.kept, s.visit p n, hv, hk⟩
  · obtain ⟨htaken, hacc⟩ := h.loses_name hrn (by simp [admits, hs]) hx hk
    refine ⟨.lost, s.visit p n, hv, x, .inl rfl, hx, htaken, hacc.imp_left fun hdup => ?_⟩
    exact List.mem_flatMap.2 ⟨s.visit p n, hv, hdup⟩

/-- A container or list is offered whatever a route leads to, unless state is excluded. -/
theorem offered_of_route (h : s.Wired root) (hs : p.excludesState = false) {n m x : Nat}
    (hn : root ≤ n) (hk : (s.node n).kind.isEntity = true) (hm : m ∈ s.children n)
    (hroute : s.Route p n m x) : x ∈ s.candidates p n := by
  refine (h.mem_candidates_iff hn).2 ⟨m, ?_, by simp [admits, hs], hroute⟩
  exact (h.considered_perm hn fun _ => hk).mem_iff.2 hm

/-- A wrapper offers what it exposes; around a list alone, that is the list. -/
theorem route_of_wrapper (h : s.Wired root) (hp : p.compresses = true)
    (hs : p.excludesState = false) {n m x : Nat} (hm : root ≤ m)
    (hw : (s.node m).kind.isWrapper = true) (hx : s.Exposes m x) : s.Route p n m x := by
  have hside : (s.node m).side? = none := by
    unfold Node.side?
    refine if_neg fun hc => ?_
    simp [hc, Kind.isWrapper] at hw
  cases hsole : s.soleList? m with
  | none =>
    refine .plain (by simp [elides, hside, hsole]) (fun _ => decide_eq_false fun hkey => ?_) hx
    simp [hkey.2, Kind.isWrapper] at hw
  | some y =>
    obtain ⟨-, hcs, hlist⟩ := soleList?_eq_some_iff.1 hsole
    obtain ⟨c, hc, hcx⟩ := (h.exposes_iff_of_wrapper hm hw).1 hx
    rw [hcs, List.mem_singleton] at hc
    subst hc
    cases hcx.eq_of_data (by rw [hlist]; rfl)
    exact .sole hp hside hsole (by simp [admits, hs])

/-- What a visited node stands above, with only wrappers between, is offered to it or passed
over. -/
theorem exists_fate_of_walked (h : s.Wired root) (hr : root ≤ r) (hlt : r < s.size)
    (hp : p.compresses = true) (hs : p.excludesState = false) {q m d : Nat}
    (hq : s.Walked p r q) (hk : (s.node q).kind.isEntity = true) (hm : m ∈ s.children q)
    (hx : s.Exposes m d) : ∃ f, s.Fated p ((Walk.start p r).visits s) d f := by
  have hrq := hq.root_le h hr
  have hrm := h.root_le_child hrq hm
  have hv := (h.mem_visits_iff hr hlt).2 ⟨q, hq, rfl⟩
  have hoff : s.Route p q m d → ∃ f, s.Fated p ((Walk.start p r).visits s) d f := fun hroute =>
    h.fated_of_offered hr hlt hs hq (h.offered_of_route hs hrq hk hm hroute)
  cases hmw : (s.node m).kind.isWrapper with
  | true => exact hoff (h.route_of_wrapper hp hs hrm hmw hx)
  | false =>
    cases hx.eq_of_data hmw
    cases hel : s.elides p m with
    | true => exact ⟨.elided, s.visit p q, hv, hm, (elides_iff hp hmw).1 hel⟩
    | false =>
      cases hkey : s.isKeyReference q m with
      | true =>
        have hkey := of_decide_eq_true hkey
        exact ⟨.keyReference, hkey.2, s.visit p q, hv, hm, hkey.1⟩
      | false => exact hoff (.plain hel (fun _ => hkey) hx)

/-- A data node that has a child is a container or list. -/
theorem isEntity_of_mem_children (h : s.Wired root) {q m : Nat} (hq : root ≤ q)
    (hw : (s.node q).kind.isWrapper = false) (hm : m ∈ s.children q) :
    (s.node q).kind.isEntity = true := by
  cases hdir : (s.node q).kind.isDirectory with
  | true => rwa [Kind.isDirectory, hw, Bool.or_false] at hdir
  | false =>
    rw [h.bare hq hdir] at hm
    cases hm

/-- A node has the fate that the nearest data node above it leaves open. -/
theorem exists_fate (h : s.Wired root) (hr : root ≤ r) (hlt : r < s.size)
    (hk : (s.node r).kind.isEntity = true) (hp : p.compresses = true)
    (hs : p.excludesState = false) {d : Nat} (hd : s.Below r d)
    (hw : (s.node d).kind.isWrapper = false) :
    ∃ f, s.Fated p ((Walk.start p r).visits s) d f := by
  have hrw := Kind.isWrapper_of_isEntity hk
  induction d using Nat.strongRecOn with
  | ind d ih =>
    obtain ⟨q, hrq, hqw, m, hm, hmd, hbetween⟩ := h.exists_holder hr hrw hd
    have hrootq := h.root_le_below hr hrq
    have hx : s.Exposes m d := ⟨hmd, hw, hbetween⟩
    have hqd := (below_child hm).trans_at hmd
    rcases hrq with rfl | hrq
    · exact h.exists_fate_of_walked hr hlt hp hs .root hk hm hx
    obtain ⟨f, hf⟩ := ih q (h.below_lt hrootq hqd).1 hrq hqw
    cases f with
    | kept =>
      obtain ⟨e, he, hqe⟩ := (h.exists_visit_iff hr hlt).1 hf
      have hqk := h.isEntity_of_mem_children hrootq hqw hm
      have hq := he.step (mem_entityChildren_iff.2 ⟨hqe, hqk⟩)
      exact h.exists_fate_of_walked hr hlt hp hs hq hqk hm hx
    | elided =>
      obtain ⟨e, he, hqe, hel⟩ := (h.exists_visit_iff hr hlt).1 hf
      have hre := he.root_le h hr
      have hroute := route_of_elides hp hs (n := e) ((elides_iff hp hqw).2 hel) hm hx
      have hoff := h.offered_of_route hs hre (he.isEntity_of_root hk) hqe hroute
      exact h.fated_of_offered hr hlt hs he hoff
    | keyReference =>
      have hbare := h.bare hrootq (by rw [hf.1]; rfl)
      rw [hbare] at hm
      cases hm
    | lost =>
      obtain ⟨n, hn, x, hxq, hl⟩ := (h.exists_visit_iff hr hlt).1 hf
      exact ⟨.lost, (h.exists_visit_iff hr hlt).2 ⟨n, hn, x, .inr (hxq.trans_below hqd), hl⟩⟩

end Wired

/-- No data node is lost in silence, and none counts twice. -/
theorem IsBuilt.fate_unique (h : s.IsBuilt root) (hr : r ∈ s.subtree root)
    (hk : (s.node r).kind.isEntity = true) (hp : p.compresses = true)
    (hs : p.excludesState = false) {d : NodeId} (hd : d ∈ s.subtree r) (hne : d ≠ r)
    (hw : (s.node d).kind.isWrapper = false) :
    ∃! f, s.Fated p ((Walk.start p r).visits s) d f := by
  obtain ⟨hle, hlt⟩ := h.range_of_mem_subtree hr
  have hbelow := ((h.wired.mem_subtree_iff hle hlt).1 hd).resolve_left hne
  obtain ⟨f, hf⟩ := h.wired.exists_fate hle hlt hk hp hs hbelow hw
  exact ⟨f, hf, fun f' hf' => h.wired.fate_eq hle hlt hp hw hf' hf⟩

/-- The name of a port that the other side shows as well. -/
theorem fate_unique_portSchema :
    portSchema.IsBuilt 0 ∧ 5 ∈ portSchema.subtree 0 ∧
      (portSchema.node 5).path = "/port/state/name" ∧
      ∃! f, portSchema.Fated .compressedPreferConfig
        ((Walk.start .compressedPreferConfig 0).visits portSchema) 5 f := by
  have hd : 5 ∈ portSchema.subtree 0 := by decide
  exact ⟨portSchema_isBuilt, hd, by decide, portSchema_isBuilt.fate_unique (by decide) (by decide)
    (by decide) (by decide) hd (by decide) (by decide)⟩

end Schema

end DataTree
