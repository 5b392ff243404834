import DataTree.Proofs.OrderFree

/-!
# Mirrored resolution

Two nodes with the same below them, in the same order, are resolved alike. Names need not be the
same: the second schema may have `ρ name` for every `name`, as long as `ρ` tells names apart and
sends the names of the two sides to names of sides, and the policies prefer such sides.

`s.Mirrors root s' ρ σ p p' R` says that all this holds of the nodes that `R` relates. Then the
offers to related nodes are alike, one by one (`Mirrors.forall₂_offers`), and so is all that comes
of them: the same names up to `ρ`, related nodes, and the same defects of related nodes, all in the
same order (`Mirrors.resolve`).
-/

namespace DataTree

/-! ## Mirrored mappings -/

namespace Entries

variable {κ α β : Type} {ρ : κ → κ} {S : α → β → Prop} {m : Entries κ α} {m' : Entries κ β}

/-- Related entries in the same order, under keys that are the same up to `ρ`. -/
def Mirrored (ρ : κ → κ) (S : α → β → Prop) (m : Entries κ α) (m' : Entries κ β) : Prop :=
  List.Forall₂ (fun e e' => e'.1 = ρ e.1 ∧ S e.2 e'.2) m m'

namespace Mirrored

theorem keys_eq (h : Mirrored ρ S m m') : m'.keys = m.keys.map ρ := by
  induction h with
  | nil => rfl
  | cons he _ ih => exact List.cons_eq_cons.2 ⟨he.1, ih⟩

theorem forall₂_values (h : Mirrored ρ S m m') : List.Forall₂ S m.values m'.values := by
  rw [values, values, List.forall₂_map_left_iff, List.forall₂_map_right_iff]
  exact List.Forall₂.imp (fun _ _ he => he.2) h

theorem append {n : Entries κ α} {n' : Entries κ β} (h : Mirrored ρ S m m')
    (h' : Mirrored ρ S n n') : Mirrored ρ S (m ++ n) (m' ++ n') :=
  List.rel_append h h'

/-- If only equal elements are related, nothing but the keys differs. -/
theorem eq_map {n n' : Entries κ α} {T : α → α → Prop} (h : Mirrored ρ T n n')
    (hT : ∀ a b, T a b → a = b) : n' = n.map fun entry => (ρ entry.1, entry.2) := by
  have hrel : List.Forall₂ Eq (n.map fun entry => (ρ entry.1, entry.2)) n' :=
    List.forall₂_map_left_iff.2 (h.imp fun e e' he => Prod.ext he.1.symm (hT _ _ he.2))
  rw [List.forall₂_eq_eq_eq] at hrel
  exact hrel.symm

theorem mem_keys_iff (h : Mirrored ρ S m m') (hρ : Function.Injective ρ) {key : κ} :
    ρ key ∈ m'.keys ↔ key ∈ m.keys := by
  rw [h.keys_eq, List.mem_map_of_injective hρ]

variable [DecidableEq κ]

theorem rel_get? (h : Mirrored ρ S m m') (hρ : Function.Injective ρ) (key : κ) :
    Option.Rel S (m.get? key) (m'.get? (ρ key)) := by
  induction h with
  | nil => exact .none
  | @cons e e' _ _ he _ ih =>
    obtain ⟨k, a⟩ := e
    obtain ⟨k', b⟩ := e'
    obtain ⟨rfl, hab⟩ := he
    rw [get?_cons, get?_cons]
    by_cases hk : k = key
    · rw [if_pos hk, if_pos (congrArg ρ hk)]
      exact .some hab
    · rw [if_neg hk, if_neg fun e => hk (hρ e)]
      exact ih

theorem addNew (h : Mirrored ρ S m m') (hρ : Function.Injective ρ) (key : κ) {a : α} {b : β}
    (hab : S a b) : Mirrored ρ S (m.addNew key a) (m'.addNew (ρ key) b) := by
  by_cases hk : key ∈ m.keys
  · rwa [addNew_of_mem hk, addNew_of_mem ((h.mem_keys_iff hρ).2 hk)]
  · rw [addNew_of_not_mem hk, addNew_of_not_mem fun hk' => hk ((h.mem_keys_iff hρ).1 hk')]
    exact h.append (.cons ⟨rfl, hab⟩ .nil)

end Mirrored

end Entries

/-! ## Mirrored schemas -/

namespace Schema

/-- Related nodes whose names are the same up to `ρ`. -/
structure Counterparts (s s' : Schema) (ρ : Name → Name) (R : Nat → Nat → Prop) (x x' : Nat) :
    Prop where
  related : R x x'
  name : (s'.node x').name = ρ (s.node x).name

/-- All that the offers to related nodes depend on. -/
structure Mirrors (s : Schema) (root : Nat) (s' : Schema) (ρ : Name → Name) (σ : Side → Side)
    (p p' : Policy) (R : Nat → Nat → Prop) : Prop where
  wired : s.Wired root
  size_le : s.size ≤ s'.size
  inj : Function.Injective ρ
  side : ∀ side : Side, ρ (some side.name) = some (σ side).name
  preferred : p'.preferred? = p.preferred?.map σ
  range : ∀ {i i' : Nat}, R i i' → root ≤ i ∧ i < s.size
  kind : ∀ {i i' : Nat}, R i i' → (s'.node i').kind = (s.node i).kind
  admits : ∀ {i i' : Nat}, R i i' → s'.admits p' i' = s.admits p i
  children : ∀ {i i' : Nat}, R i i' →
    Entries.Mirrored ρ (s.Counterparts s' ρ R) (s.node i).children (s'.node i').children

namespace Mirrors

variable {s s' : Schema} {root : Nat} {ρ : Name → Name} {σ : Side → Side} {p p' : Policy}
variable {R : Nat → Nat → Prop} {i i' x x' n n' m m' : Nat}

theorem forall₂_children (h : s.Mirrors root s' ρ σ p p' R) (hr : R i i') :
    List.Forall₂ (s.Counterparts s' ρ R) (s.children i) (s'.children i') :=
  (h.children hr).forall₂_values

/-! ## Offers -/

theorem forall₂_frontierWithin (h : s.Mirrors root s' ρ σ p p' R)
    (hx : s.Counterparts s' ρ R x x') (depth : Nat) :
    List.Forall₂ (s.Counterparts s' ρ R) (s.frontierWithin depth x)
      (s'.frontierWithin depth x') := by
  induction depth generalizing x x' with
  | zero => exact .nil
  | succ depth ih =>
    rw [frontierWithin, frontierWithin, h.kind hx.related]
    split
    · exact List.rel_flatMap (h.forall₂_children hx.related) fun _ _ hc => ih hc
    · exact .cons hx .nil

theorem forall₂_frontier (h : s.Mirrors root s' ρ σ p p' R) (hx : s.Counterparts s' ρ R x x') :
    List.Forall₂ (s.Counterparts s' ρ R) (s.frontier x) (s'.frontier x') := by
  obtain ⟨hle, hlt⟩ := h.range hx.related
  rw [← h.wired.frontierWithin_eq hle hlt h.size_le]
  exact h.forall₂_frontierWithin hx s'.size

theorem σ_injective (h : s.Mirrors root s' ρ σ p p' R) : Function.Injective σ := by
  intro a b hab
  have hname : some a.name = some b.name := h.inj (by rw [h.side, h.side, hab])
  cases a <;> cases b <;> first | rfl | exact absurd hname (by decide)

theorem exists_σ_eq (h : s.Mirrors root s' ρ σ p p' R) (side : Side) : ∃ own, σ own = side := by
  by_cases hc : σ .config = side
  · exact ⟨.config, hc⟩
  · have hne : σ .state ≠ σ .config := fun e => nomatch h.σ_injective e
    refine ⟨.state, ?_⟩
    rw [Side.eq_other_of_ne hne, Side.eq_other_of_ne hc, Side.other_other]

theorem side?_eq (h : s.Mirrors root s' ρ σ p p' R) (hx : s.Counterparts s' ρ R x x') :
    (s'.node x').side? = (s.node x).side?.map σ := by
  refine Option.ext fun side' => ?_
  obtain ⟨side, rfl⟩ := h.exists_σ_eq side'
  rw [Node.side?_eq_some_iff, Option.map_eq_some_iff, h.kind hx.related, hx.name, ← h.side,
    h.inj.eq_iff, ← Node.side?_eq_some_iff]
  constructor
  · exact fun hs => ⟨side, hs, rfl⟩
  · rintro ⟨own, hs, e⟩
    rwa [← h.σ_injective e]

theorem rel_soleList? (h : s.Mirrors root s' ρ σ p p' R) (hr : R i i') :
    Option.Rel (s.Counterparts s' ρ R) (s.soleList? i) (s'.soleList? i') := by
  have hcs := h.forall₂_children hr
  unfold soleList?
  rw [h.kind hr]
  generalize s.children i = cs at hcs ⊢
  generalize s'.children i' = cs' at hcs ⊢
  split
  · cases hcs with
    | nil => exact .none
    | cons hc hrest =>
      cases hrest with
      | nil =>
        simp only [h.kind hc.related]
        split
        · exact .some hc
        · exact .none
      | cons _ _ => exact .none
  · exact .none

theorem isKeyReference_eq (h : s.Mirrors root s' ρ σ p p' R) (hn : R n n') (hm : R m m') :
    s'.isKeyReference n' m' = s.isKeyReference n m := by
  rw [isKeyReference, isKeyReference, h.kind hn, h.kind hm]

theorem forall₂_plainOffers (h : s.Mirrors root s' ρ σ p p' R)
    (hx : s.Counterparts s' ρ R x x') :
    List.Forall₂ (Offer.Alike (s.Counterparts s' ρ R)) (s.plainOffers x) (s'.plainOffers x') := by
  rw [plainOffers, plainOffers, List.forall₂_map_left_iff, List.forall₂_map_right_iff]
  exact (h.forall₂_frontier hx).imp fun _ _ => .plain

theorem forall₂_liftedOffers (h : s.Mirrors root s' ρ σ p p' R) (preferred : Bool)
    (hr : R i i') : List.Forall₂ (Offer.Alike (s.Counterparts s' ρ R))
      (s.liftedOffers preferred i) (s'.liftedOffers preferred i') := by
  refine List.rel_flatMap (h.forall₂_children hr) fun c c' hc => List.rel_append ?_ ?_
  · rw [h.side?_eq hc, Option.isSome_map]
    split
    · exact .cons (.nested hc) .nil
    · exact .nil
  · rw [List.forall₂_map_left_iff, List.forall₂_map_right_iff]
    refine (h.forall₂_frontier hc).imp fun x x' hx => ?_
    cases preferred
    · exact .deferred hx
    · exact .preferred hx

theorem forall₂_compressedOffers (h : s.Mirrors root s' ρ σ p p' R) (side : Side) (hn : R n n')
    (hm : s.Counterparts s' ρ R m m') : List.Forall₂ (Offer.Alike (s.Counterparts s' ρ R))
      (s.compressedOffers p side n m) (s'.compressedOffers p' (σ side) n' m') := by
  rw [compressedOffers, compressedOffers, h.admits hm.related, h.side?_eq hm,
    h.isKeyReference_eq hn hm.related]
  split
  · cases (s.node m).side? with
    | some own =>
      simp only [Option.map_some, h.σ_injective.eq_iff]
      exact h.forall₂_liftedOffers _ hm.related
    | none =>
      have hsole := h.rel_soleList? hm.related
      generalize s.soleList? m = y at hsole ⊢
      generalize s'.soleList? m' = y' at hsole ⊢
      cases hsole with
      | some hy =>
        simp only [Option.map_none, h.admits hy.related]
        split
        · exact .cons (.plain hy) .nil
        · exact .nil
      | none =>
        simp only [Option.map_none]
        split
        · exact .nil
        · exact h.forall₂_plainOffers hm
  · exact .nil

theorem forall₂_scheduled (h : s.Mirrors root s' ρ σ p p' R) (side : Side) (hr : R n n') :
    List.Forall₂ (s.Counterparts s' ρ R) (s.scheduled side n) (s'.scheduled (σ side) n') := by
  rw [scheduled, scheduled, h.kind hr]
  refine List.rel_append ?_ (forall₂_filter (h.forall₂_children hr) fun c c' hc => ?_)
  · split
    · have hget := (h.children hr).rel_get? h.inj (some side.name)
      rw [h.side] at hget
      generalize (s.node n).children.get? (some side.name) = c at hget ⊢
      generalize (s'.node n').children.get? (some (σ side).name) = c' at hget ⊢
      cases hget with
      | none => exact .nil
      | some hc => exact .cons hc .nil
    · exact .nil
  · simp only [hc.name, ← h.side, ne_eq, h.inj.eq_iff]

theorem forall₂_keyReferences (h : s.Mirrors root s' ρ σ p p' R) (hr : R n n') :
    List.Forall₂ (s.Counterparts s' ρ R) (s.keyReferences p n) (s'.keyReferences p' n') := by
  have hpref := h.preferred
  unfold keyReferences
  cases hside : p.preferred? with
  | none =>
    rw [hside] at hpref
    rw [hpref]
    exact .nil
  | some side =>
    rw [hside] at hpref
    rw [hpref]
    refine forall₂_filter (h.forall₂_scheduled side hr) fun c c' hc => ?_
    rw [h.admits hc.related, h.isKeyReference_eq hr hc.related]

theorem forall₂_offers (h : s.Mirrors root s' ρ σ p p' R) (hr : R n n') :
    List.Forall₂ (Offer.Alike (s.Counterparts s' ρ R)) (s.offers p n) (s'.offers p' n') := by
  have hpref := h.preferred
  unfold offers
  cases hside : p.preferred? with
  | none =>
    rw [hside] at hpref
    rw [hpref]
    have hadmitted := forall₂_filter (h.forall₂_children hr) fun c c' hc =>
      (h.admits hc.related).symm
    exact List.rel_flatMap hadmitted fun m m' hm => h.forall₂_plainOffers hm
  | some side =>
    rw [hside] at hpref
    rw [hpref]
    exact List.rel_flatMap (h.forall₂_scheduled side hr) fun m m' hm =>
      h.forall₂_compressedOffers side hr hm

end Mirrors

end Schema

/-! ## What is kept and what is put on record -/

/-- Defects of the same form, of related nodes. -/
inductive Defect.Alike (s s' : Schema) (R : Nat → Nat → Prop) : Defect → Defect → Prop
  | duplicate {x x' : Nat} : R x x' →
      Alike s s' R (Collector.duplicate s x) (Collector.duplicate s' x')
  | nestedPair {x x' : Nat} : R x x' →
      Alike s s' R (Collector.nestedPair s x) (Collector.nestedPair s' x')

variable {s s' : Schema} {ρ : Name → Name} {R : Nat → Nat → Prop} {x x' : Nat}

structure Collector.Mirrored (s s' : Schema) (ρ : Name → Name) (R : Nat → Nat → Prop)
    (c c' : Collector) : Prop where
  children : Entries.Mirrored ρ (s.Counterparts s' ρ R) c.children c'.children
  defects : List.Forall₂ (Defect.Alike s s' (s.Counterparts s' ρ R)) c.defects c'.defects
  reserved : c'.reserved = c.reserved.map ρ

namespace Collector.Mirrored

variable {c c' : Collector}

theorem empty : Mirrored s s' ρ R .empty .empty :=
  ⟨.nil, .nil, rfl⟩

theorem mem_reserved_iff (h : Mirrored s s' ρ R c c') (hρ : Function.Injective ρ)
    (hx : s.Counterparts s' ρ R x x') :
    (s'.node x').name ∈ c'.reserved ↔ (s.node x).name ∈ c.reserved := by
  rw [h.reserved, hx.name, List.mem_map_of_injective hρ]

/-- Taking offers that are alike leads to collectors that are alike. -/
theorem takeWith (h : Mirrored s s' ρ R c c') (hρ : Function.Injective ρ) (guard : Guard)
    {o o' : Offer} (ho : Offer.Alike (s.Counterparts s' ρ R) o o') :
    Mirrored s s' ρ R (c.takeWith s guard o) (c'.takeWith s' guard o') := by
  have hnotes : List.Forall₂ (Defect.Alike s s' (s.Counterparts s' ρ R))
      (c.defects ++ (o.note? s).toList) (c'.defects ++ (o'.note? s').toList) := by
    refine List.rel_append h.defects ?_
    cases ho with
    | nested hx => exact .cons (.nestedPair hx) .nil
    | _ => exact .nil
  have hreserved : (o'.reserved? s').toList ++ c'.reserved =
      ((o.reserved? s).toList ++ c.reserved).map ρ := by
    rw [List.map_append, h.reserved]
    cases ho with
    | preferred hx => exact congrArg (· :: _) hx.name
    | _ => rfl
  have hnone : c.requests s guard o = [] → c'.requests s' guard o' = [] →
      Mirrored s s' ρ R (c.takeWith s guard o) (c'.takeWith s' guard o') := fun hr hr' => by
    rw [takeWith_of_no_request hr, takeWith_of_no_request hr']
    exact ⟨h.children, hnotes, hreserved⟩
  have hone : ∀ {x x' : Nat} {guard' : Guard}, s.Counterparts s' ρ R x x' →
      c.requests s guard o = [c.request s x guard'] →
      c'.requests s' guard o' = [c'.request s' x' guard'] →
      Mirrored s s' ρ R (c.takeWith s guard o) (c'.takeWith s' guard o') := by
    intro x x' guard' hx hr hr'
    have hforgives : guard'.forgives c'.reserved (s'.node x').name =
        guard'.forgives c.reserved (s.node x).name := by
      simp only [Guard.forgives, h.mem_reserved_iff hρ hx]
    rw [takeWith_of_request hr, takeWith_of_request hr', hforgives]
    refine ⟨?_, List.rel_append hnotes ?_, hreserved⟩
    · rw [Schema.keep, Schema.keep, hx.name]
      exact h.children.addNew hρ _ hx
    · rw [hx.name]
      simp only [h.children.mem_keys_iff hρ]
      split
      · exact .cons (.duplicate hx) .nil
      · exact .nil
  cases ho with
  | plain hx => exact hone hx rfl rfl
  | preferred hx => exact hone hx rfl rfl
  | nested hx => exact hnone rfl rfl
  | deferred hx =>
    rename_i x x'
    by_cases hr : (s.node x).name ∈ c.reserved
    · exact hnone (requests_of_reserved hr)
        (requests_of_reserved ((h.mem_reserved_iff hρ hx).2 hr))
    · exact hone hx (requests_of_not_reserved hr)
        (requests_of_not_reserved (mt (h.mem_reserved_iff hρ hx).1 hr))

end Collector.Mirrored

/-- Related children under names that are the same up to `ρ`, and defects of related nodes, all in
the same order. -/
structure ChildSet.Mirrored (s s' : Schema) (ρ : Name → Name) (R : Nat → Nat → Prop)
    (r r' : ChildSet) : Prop where
  children : Entries.Mirrored ρ R r.children r'.children
  defects : List.Forall₂ (Defect.Alike s s' R) r.defects r'.defects

/-- In the order of their names, the children are still related. -/
theorem ChildSet.Mirrored.forall₂_orderedChildren {r r' : ChildSet}
    (h : ChildSet.Mirrored s s' id R r r') (hn : r.children.keys.Nodup) :
    List.Forall₂ R r.orderedChildren r'.orderedChildren := by
  have hkeys : r.children.keys.Perm r'.children.keys := by
    rw [h.children.keys_eq, List.map_id]
  refine ChildSet.forall₂_orderedChildren hn hkeys fun {key x x'} hx hx' => ?_
  have hget := h.children.rel_get? Function.injective_id key
  rw [hx, id, hx'] at hget
  cases hget with
  | some hxx => exact hxx

namespace Schema.Mirrors

variable {root n n' : Nat} {σ : Side → Side} {p p' : Policy}

theorem resolve (h : s.Mirrors root s' ρ σ p p' R) (hr : R n n') :
    ChildSet.Mirrored s s' ρ (s.Counterparts s' ρ R) (s.resolve p n) (s'.resolve p' n') := by
  rw [Schema.resolve, Schema.resolve, h.admits hr]
  split
  · have hc := List.rel_foldl (fun _ _ hc _ _ ho => hc.takeWith h.inj .tolerant ho)
      Collector.Mirrored.empty (h.forall₂_offers hr)
    exact ⟨hc.children, hc.defects⟩
  · exact ⟨.nil, .nil⟩

end Schema.Mirrors

end DataTree
