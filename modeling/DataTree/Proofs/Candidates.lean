import DataTree.Proofs.Frontier
import DataTree.Resolution
import Mathlib.Data.List.Perm.Subperm

/-!
# Where offers come from

`s.candidates p n` are the nodes offered to `n`, in order. Each comes by a child of `n` that is
considered (`Wired.mem_candidates_iff`), on one of three routes (`s.Route p n m x`): the child `m`
stands for `x`; `m` is a side with `x` among its members; the list `x` is all that `m` has.

* The data nodes between `n` and `x` are few: at most the child, and then it is elided
  (`Route.elided_of_between`).
* An elided child is not offered itself (`Wired.not_mem_candidates_of_elides`).
* No node is offered twice (`Wired.nodup_candidates`).
-/

namespace DataTree

theorem Node.side?_eq_some_iff {n : Node} {side : Side} :
    n.side? = some side ↔ n.kind = .container ∧ n.name = some side.name := by
  unfold Node.side?
  split
  · rename_i hk
    cases hn : n.name with
    | none => simp
    | some name => simp [hk, Side.ofName?_eq_some_iff]
  · rename_i hk
    simp [hk]

/-- The node that is offered; a note about a nested side offers none. -/
def Offer.candidate? : Offer → Option NodeId
  | plain i | preferred i | deferred i => some i
  | nested _ => none

namespace Schema

def candidates (s : Schema) (p : Policy) (n : NodeId) : List NodeId :=
  (s.offers p n).filterMap Offer.candidate?

/-- The policy gives something below `m` in its place. -/
def elides (s : Schema) (p : Policy) (m : NodeId) : Bool :=
  p.compresses && ((s.node m).side?.isSome || (s.soleList? m).isSome)

inductive Route (s : Schema) (p : Policy) (n m x : Nat) : Prop where
  | plain (he : s.elides p m = false)
      (hk : p.compresses = true → s.isKeyReference n m = false) (hx : s.Exposes m x)
  | lifted (hp : p.compresses = true) (hs : (s.node m).side?.isSome = true) {c : Nat}
      (hc : c ∈ s.children m) (hx : s.Exposes c x)
  | sole (hp : p.compresses = true) (hs : (s.node m).side? = none) (hx : s.soleList? m = some x)
      (ha : s.admits p x = true)

/-! ## Offers child by child -/

/-- The children that are asked for offers, in order. -/
def considered (s : Schema) (p : Policy) (n : NodeId) : List NodeId :=
  match p.preferred? with
  | none => s.children n
  | some side => s.scheduled side n

def childOffers (s : Schema) (p : Policy) (n m : NodeId) : List Offer :=
  match p.preferred? with
  | none => if s.admits p m then s.plainOffers m else []
  | some side => s.compressedOffers p side n m

variable {s : Schema} {root : Nat}

theorem offers_eq_flatMap (p : Policy) (n : NodeId) :
    s.offers p n = (s.considered p n).flatMap (s.childOffers p n) := by
  unfold offers considered childOffers
  cases p.preferred? with
  | some side => rfl
  | none =>
    simp only
    induction s.children n with
    | nil => rfl
    | cons m ms ih =>
      rw [List.filter_cons, List.flatMap_cons, ← ih]
      split <;> simp

theorem candidates_eq_flatMap (p : Policy) (n : NodeId) :
    s.candidates p n =
      (s.considered p n).flatMap fun m => (s.childOffers p n m).filterMap Offer.candidate? := by
  rw [candidates, offers_eq_flatMap, List.filterMap_flatMap]

@[simp] theorem candidates_plainOffers (m : NodeId) :
    (s.plainOffers m).filterMap Offer.candidate? = s.frontier m := by
  rw [plainOffers, List.filterMap_map]
  exact List.filterMap_some

@[simp] theorem candidates_liftedOffers (preferred : Bool) (m : NodeId) :
    (s.liftedOffers preferred m).filterMap Offer.candidate? = s.members m := by
  rw [liftedOffers, List.filterMap_flatMap, members]
  refine List.flatMap_congr fun c _ => ?_
  have hnote : (if (s.node c).side?.isSome then [Offer.nested c] else []).filterMap
      Offer.candidate? = [] := by
    split <;> rfl
  rw [List.filterMap_append, hnote, List.nil_append, List.filterMap_map]
  cases preferred <;> exact List.filterMap_some

theorem soleList?_eq_some_iff {m x : NodeId} : s.soleList? m = some x ↔
    (s.node m).kind.isDirectory = true ∧ s.children m = [x] ∧ (s.node x).kind = .list := by
  unfold soleList?
  split
  · rename_i hd
    split
    · rename_i inner hc
      by_cases hl : (s.node inner).kind = .list
      · rw [if_pos hl, hc]
        constructor
        · intro e
          cases e
          exact ⟨hd, rfl, hl⟩
        · rintro ⟨-, e, -⟩
          cases e
          rfl
      · rw [if_neg hl, hc]
        constructor
        · intro e
          cases e
        · rintro ⟨-, e, hx⟩
          cases e
          exact absurd hx hl
    · rename_i hc
      constructor
      · intro e
        cases e
      · rintro ⟨-, e, -⟩
        exact absurd e (hc x)
  · rename_i hd
    simp [hd]

theorem mem_children_of_soleList? {m x : NodeId} (hx : s.soleList? m = some x) :
    x ∈ s.children m := by
  rw [(soleList?_eq_some_iff.1 hx).2.1]
  exact List.mem_singleton_self x

/-! ## Routes -/

theorem route_iff_of_uncompressed {p : Policy} (hp : p.compresses = false) {n m x : Nat} :
    s.Route p n m x ↔ s.Exposes m x := by
  constructor
  · rintro (⟨-, -, hx⟩ | ⟨hp', -, -, -⟩ | ⟨hp', -, -, -⟩)
    · exact hx
    · simp [hp] at hp'
    · simp [hp] at hp'
  · intro hx
    exact .plain (by simp [elides, hp]) (by simp [hp]) hx

theorem route_iff_of_side {p : Policy} (hp : p.compresses = true) {n m x : Nat}
    (hs : (s.node m).side?.isSome = true) :
    s.Route p n m x ↔ ∃ c ∈ s.children m, s.Exposes c x := by
  constructor
  · rintro (⟨he, -, -⟩ | ⟨-, -, hc, hx⟩ | ⟨-, hs', -, -⟩)
    · simp [elides, hp, hs] at he
    · exact ⟨_, hc, hx⟩
    · simp [hs'] at hs
  · rintro ⟨c, hc, hx⟩
    exact .lifted hp hs hc hx

theorem route_iff_of_sole {p : Policy} (hp : p.compresses = true) {n m x y : Nat}
    (hs : (s.node m).side? = none) (hy : s.soleList? m = some y) :
    s.Route p n m x ↔ s.admits p y = true ∧ x = y := by
  constructor
  · rintro (⟨he, -, -⟩ | ⟨-, hs', -, -⟩ | ⟨-, -, hx, ha⟩)
    · simp [elides, hp, hy] at he
    · simp [hs] at hs'
    · cases hx.symm.trans hy
      exact ⟨ha, rfl⟩
  · rintro ⟨ha, rfl⟩
    exact .sole hp hs hy ha

theorem route_iff_of_kept {p : Policy} (hp : p.compresses = true) {n m x : Nat}
    (hs : (s.node m).side? = none) (hl : s.soleList? m = none) :
    s.Route p n m x ↔ s.isKeyReference n m = false ∧ s.Exposes m x := by
  constructor
  · rintro (⟨-, hk, hx⟩ | ⟨-, hs', -, -⟩ | ⟨-, -, hx, -⟩)
    · exact ⟨hk hp, hx⟩
    · simp [hs] at hs'
    · simp [hl] at hx
  · rintro ⟨hk, hx⟩
    exact .plain (by simp [elides, hs, hl]) (fun _ => hk) hx

namespace Wired

theorem mem_childCandidates_iff (h : s.Wired root) {p : Policy} {n m x : Nat} (hn : root ≤ n)
    (hm : m ∈ s.children n) : x ∈ (s.childOffers p n m).filterMap Offer.candidate? ↔
      s.admits p m = true ∧ s.Route p n m x := by
  have hrm := h.root_le_child hn hm
  have hmlt := h.child_lt_size hn hm
  unfold childOffers
  cases hp : p.preferred? with
  | none =>
    have hc : p.compresses = false := by simp [Policy.compresses, hp]
    simp only [route_iff_of_uncompressed hc, ← h.mem_frontier_iff hrm hmlt]
    cases ha : s.admits p m <;> simp
  | some side =>
    have hc : p.compresses = true := by simp [Policy.compresses, hp]
    simp only [compressedOffers]
    cases ha : s.admits p m with
    | false => simp
    | true =>
      cases hs : (s.node m).side? with
      | some own =>
        simp [route_iff_of_side hc (by rw [hs]; rfl), h.mem_members_iff hrm]
      | none =>
        cases hl : s.soleList? m with
        | some y =>
          rw [route_iff_of_sole hc hs hl]
          cases hy : s.admits p y <;> simp [Offer.candidate?, hy]
        | none =>
          rw [route_iff_of_kept hc hs hl, ← h.mem_frontier_iff hrm hmlt]
          cases hk : s.isKeyReference n m <;> simp

/-! ## The children that are considered -/

/-- The child of a given name, by its key and by its own name. -/
theorem toList_get?_eq_filter (h : s.Wired root) {n : Nat} (hn : root ≤ n) (key : Name) :
    ((s.node n).children.get? key).toList =
      (s.children n).filter fun c => (s.node c).name = key := by
  rw [h.children_eq_map hn]
  have hnames := h.nodup_names hn
  generalize s.children n = cs at hnames
  induction cs with
  | nil => rfl
  | cons c cs ih =>
    rw [List.map_cons, List.nodup_cons] at hnames
    rw [List.map_cons, Entries.get?_cons, List.filter_cons]
    by_cases hk : (s.node c).name = key
    · have hrest : cs.filter (fun c' => (s.node c').name = key) = [] := by
        refine List.filter_eq_nil_iff.2 fun c' hc' e => hnames.1 ?_
        rw [hk, ← of_decide_eq_true e]
        exact List.mem_map_of_mem (f := fun c => (s.node c).name) hc'
      simp [hk, hrest]
    · rw [if_neg hk, if_neg (by simpa using hk)]
      exact ih hnames.2

theorem scheduled_eq (h : s.Wired root) {n : Nat} (hn : root ≤ n) (side : Side) :
    s.scheduled side n =
      (if (s.node n).kind.isEntity then
        (s.children n).filter fun c => (s.node c).name = some side.name else []) ++
      (s.children n).filter fun c => (s.node c).name ≠ some side.name := by
  rw [scheduled, h.toList_get?_eq_filter hn]

/-- A container or list considers all of its children; every node does without compression. -/
theorem considered_perm (h : s.Wired root) {p : Policy} {n : Nat} (hn : root ≤ n)
    (hk : p.compresses = true → (s.node n).kind.isEntity = true) :
    (s.considered p n).Perm (s.children n) := by
  unfold considered
  cases hp : p.preferred? with
  | none => exact List.Perm.refl _
  | some side =>
    have hent := hk (by simp [Policy.compresses, hp])
    simp only [h.scheduled_eq hn, hent, if_true]
    have := List.filter_append_perm (fun c => decide ((s.node c).name = some side.name))
      (s.children n)
    simpa only [decide_not] using this

theorem considered_subperm (h : s.Wired root) (p : Policy) {n : Nat} (hn : root ≤ n) :
    (s.considered p n).Subperm (s.children n) := by
  by_cases hk : p.compresses = true → (s.node n).kind.isEntity = true
  · exact (h.considered_perm hn hk).subperm
  · unfold considered
    cases hp : p.preferred? with
    | none => exact (List.Perm.refl _).subperm
    | some side =>
      have hent : (s.node n).kind.isEntity = false := by
        cases he : (s.node n).kind.isEntity with
        | true => exact absurd (fun _ => he) hk
        | false => rfl
      simp only [h.scheduled_eq hn, hent, Bool.false_eq_true, if_false, List.nil_append]
      exact List.filter_sublist.subperm

theorem mem_children_of_considered (h : s.Wired root) {p : Policy} {n m : Nat} (hn : root ≤ n)
    (hm : m ∈ s.considered p n) : m ∈ s.children n :=
  (h.considered_subperm p hn).subset hm

/-- What is offered by a child that is considered and not left out. -/
theorem mem_candidates_iff (h : s.Wired root) {p : Policy} {n x : Nat} (hn : root ≤ n) :
    x ∈ s.candidates p n ↔
      ∃ m ∈ s.considered p n, s.admits p m = true ∧ s.Route p n m x := by
  rw [candidates_eq_flatMap, List.mem_flatMap]
  exact exists_congr fun m => and_congr_right fun hm =>
    h.mem_childCandidates_iff hn (h.mem_children_of_considered hn hm)

end Wired

/-! ## What lies on a route -/

variable {p : Policy} {n m x : Nat}

theorem Route.atOrBelow (hr : s.Route p n m x) : s.AtOrBelow m x := by
  rcases hr with ⟨-, -, hx⟩ | ⟨-, -, hc, hx⟩ | ⟨-, -, hx, -⟩
  · exact hx.atOrBelow
  · exact .inr ((below_child hc).trans_at hx.atOrBelow)
  · exact .inr (below_child (mem_children_of_soleList? hx))

theorem Route.data (hr : s.Route p n m x) : (s.node x).kind.isWrapper = false := by
  rcases hr with ⟨-, -, hx⟩ | ⟨-, -, -, hx⟩ | ⟨-, -, hx, -⟩
  · exact hx.data
  · exact hx.data
  · rw [(soleList?_eq_some_iff.1 hx).2.2]
    rfl

/-- An elided child leads to something below it. -/
theorem Route.below_of_elides (hr : s.Route p n m x) (he : s.elides p m = true) :
    s.Below m x := by
  rcases hr with ⟨he', -, -⟩ | ⟨-, -, hc, hx⟩ | ⟨-, -, hx, -⟩
  · simp [he] at he'
  · exact (below_child hc).trans_at hx.atOrBelow
  · exact below_child (mem_children_of_soleList? hx)

/-- No data node lies between a node and what is offered to it, but for a child that is elided. -/
theorem Route.elided_of_between (hr : s.Route p n m x) (h : s.Wired root) (hn : root ≤ n)
    (hm : m ∈ s.children n) {e : Nat} (hne : s.Below n e) (hex : s.Below e x)
    (hd : (s.node e).kind.isWrapper = false) : e = m ∧ s.elides p m = true := by
  have hrm := h.root_le_child hn hm
  -- the child of `n` above `e` is the one on the route
  have hme : s.AtOrBelow m e := by
    obtain ⟨m', hm', he⟩ := hne.exists_child
    cases h.siblings_disjoint hn hm hm' hr.atOrBelow (.inr (he.trans_below hex))
    exact he
  have hsplit : ∀ {c : Nat}, c ∈ s.children m → s.Exposes c x → e = m := fun hc hx => by
    rcases hme with rfl | hme
    · rfl
    obtain ⟨c', hc', hce⟩ := hme.exists_child
    cases h.siblings_disjoint hrm hc hc' hx.atOrBelow (.inr (hce.trans_below hex))
    simp [hx.between hce hex] at hd
  rcases hr with ⟨-, -, hx⟩ | ⟨hp, hs, hc, hx⟩ | ⟨hp, -, hx, -⟩
  · simp [hx.between hme hex] at hd
  · exact ⟨hsplit hc hx, by simp [elides, hp, hs]⟩
  · have hxm := mem_children_of_soleList? hx
    refine ⟨hsplit hxm (h.exposes_self (h.root_le_child hrm hxm) ?_), by simp [elides, hp, hx]⟩
    rw [(soleList?_eq_some_iff.1 hx).2.2]
    rfl

namespace Wired

theorem below_of_mem_candidates (h : s.Wired root) (hn : root ≤ n) (hx : x ∈ s.candidates p n) :
    s.Below n x := by
  obtain ⟨m, hm, -, hr⟩ := (h.mem_candidates_iff hn).1 hx
  exact (below_child (h.mem_children_of_considered hn hm)).trans_at hr.atOrBelow

theorem data_of_mem_candidates (h : s.Wired root) (hn : root ≤ n) (hx : x ∈ s.candidates p n) :
    (s.node x).kind.isWrapper = false := by
  obtain ⟨m, -, -, hr⟩ := (h.mem_candidates_iff hn).1 hx
  exact hr.data

/-- An elided child is not offered to its parent. -/
theorem not_mem_candidates_of_elides (h : s.Wired root) (hn : root ≤ n) (hx : x ∈ s.children n)
    (he : s.elides p x = true) : x ∉ s.candidates p n := by
  intro hc
  obtain ⟨m, hm, -, hr⟩ := (h.mem_candidates_iff hn).1 hc
  have hm := h.mem_children_of_considered hn hm
  cases h.siblings_disjoint hn hx hm (.inl rfl) hr.atOrBelow
  exact h.below_ne (h.root_le_child hn hx) (hr.below_of_elides he) rfl

/-- A reference of a list to its keys is not offered to it. -/
theorem not_mem_candidates_of_isKeyReference (h : s.Wired root) (hn : root ≤ n)
    (hx : x ∈ s.children n) (hp : p.compresses = true) (hk : s.isKeyReference n x = true) :
    x ∉ s.candidates p n := by
  intro hc
  obtain ⟨m, hm, -, hr⟩ := (h.mem_candidates_iff hn).1 hc
  have hm := h.mem_children_of_considered hn hm
  cases h.siblings_disjoint hn hx hm (.inl rfl) hr.atOrBelow
  have hleaf : (s.node x).kind = .leafref := (of_decide_eq_true hk).2
  rcases hr with ⟨-, hk', -⟩ | ⟨-, hs, -, -⟩ | ⟨-, -, hsole, -⟩
  · have := hk' hp
    simp [hk] at this
  · obtain ⟨side, hs⟩ := Option.isSome_iff_exists.1 hs
    have := (Node.side?_eq_some_iff.1 hs).1
    simp [hleaf] at this
  · have := (soleList?_eq_some_iff.1 hsole).1
    rw [hleaf] at this
    cases this

theorem nodup_considered (h : s.Wired root) (p : Policy) (hn : root ≤ n) :
    (s.considered p n).Nodup := by
  obtain ⟨l, hl, hsub⟩ := h.considered_subperm p hn
  exact hl.nodup ((h.nodup_children hn).sublist hsub)

theorem nodup_childCandidates (h : s.Wired root) (p : Policy) (hn : root ≤ n)
    (hm : m ∈ s.children n) : ((s.childOffers p n m).filterMap Offer.candidate?).Nodup := by
  have hf := h.nodup_frontier (h.root_le_child hn hm) (h.child_lt_size hn hm)
  have hmem := h.nodup_members (h.root_le_child hn hm)
  unfold childOffers compressedOffers
  split
  · split <;> simp [hf]
  · split
    · split
      · simpa using hmem
      · split
        · split <;> simp [Offer.candidate?]
        · split <;> simp [hf]
    · simp

theorem nodup_candidates (h : s.Wired root) (p : Policy) (hn : root ≤ n) :
    (s.candidates p n).Nodup := by
  rw [candidates_eq_flatMap]
  have hsub := fun m hm => h.mem_children_of_considered (p := p) (m := m) hn hm
  refine h.nodup_flatMap hn (h.nodup_considered p hn) hsub ?_ ?_
  · exact fun m hm => h.nodup_childCandidates p hn (hsub m hm)
  · exact fun m hm x hx => ((h.mem_childCandidates_iff hn (hsub m hm)).1 hx).2.atOrBelow

end Wired

end Schema

end DataTree
