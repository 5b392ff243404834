import DataTree.Proofs.Entities
import DataTree.Proofs.Standing
import DataTree.Proofs.Twins

/-!
# The order of declarations does not matter

Twins are offered the same nodes, up to order and place (`Twins.matched_offers`). So they keep the
same names and put the same names on record (`Twins.agrees`), and where no name is on record as a
duplicate, what stands under a name is in the same place (`Twins.related`). A walk goes by names in
their order, so without defects it goes through the same places (`Twins.forall₂_entities`).
-/

namespace DataTree

open Defect (duplicateNames nestedPairs)

/-- Offers of the same sort, of related nodes. -/
inductive Offer.Alike (R : Nat → Nat → Prop) : Offer → Offer → Prop
  | plain {x x' : Nat} : R x x' → Alike R (.plain x) (.plain x')
  | preferred {x x' : Nat} : R x x' → Alike R (.preferred x) (.preferred x')
  | deferred {x x' : Nat} : R x x' → Alike R (.deferred x) (.deferred x')
  | nested {x x' : Nat} : R x x' → Alike R (.nested x) (.nested x')

/-- The same names, kept and on record, and the same notes. -/
structure ChildSet.Agrees (r r' : ChildSet) : Prop where
  keys : r.children.keys.Perm r'.children.keys
  duplicates : (duplicateNames r.defects).Perm (duplicateNames r'.defects)
  nestedPairs : (nestedPairs r.defects).Perm (nestedPairs r'.defects)

namespace Schema.Twins

variable {s s' : Schema} {root root' : Nat} {R : Nat → Nat → Prop} {p : Policy}
variable {i i' n n' m m' : Nat}

/-! ## Offers to twins -/

theorem admits (h : Twins s root s' root' R) (p : Policy) (hr : R i i') :
    s.admits p i = s'.admits p i' := by
  rw [Schema.admits, Schema.admits, h.writable hr]

theorem side? (h : Twins s root s' root' R) (hr : R i i') :
    (s.node i).side? = (s'.node i').side? := by
  rw [Node.side?, Node.side?, h.kind hr, h.name hr]

theorem matched_frontier (h : Twins s root s' root' R) (hr : R i i') :
    Matched R (s.frontier i) (s'.frontier i') := by
  obtain ⟨⟨hi, hlt⟩, -⟩ := h.range hr
  induction i, hi, hlt using h.wired.induction_down generalizing i' with
  | step i hi hlt ih =>
    obtain ⟨-, hi', hlt'⟩ := h.range hr
    rw [h.wired.frontier_eq hi hlt, h.wired'.frontier_eq hi' hlt', h.kind hr]
    split
    · exact (h.children hr).flatMap fun c hc c' hcc => ih c (below_child hc) hcc
    · exact .singleton hr

theorem matched_plainOffers (h : Twins s root s' root' R) (hr : R i i') :
    Matched (Offer.Alike R) (s.plainOffers i) (s'.plainOffers i') :=
  (h.matched_frontier hr).map fun _ _ => .plain

theorem matched_liftedOffers (h : Twins s root s' root' R) (preferred : Bool) (hr : R i i') :
    Matched (Offer.Alike R) (s.liftedOffers preferred i) (s'.liftedOffers preferred i') := by
  refine (h.children hr).flatMap fun c _ c' hcc => Matched.append ?_ ?_
  · rw [h.side? hcc]
    split
    · exact .singleton (.nested hcc)
    · exact .nil
  · refine (h.matched_frontier hcc).map fun x x' hx => ?_
    cases preferred
    · exact .deferred hx
    · exact .preferred hx

theorem exists_soleList? (h : Twins s root s' root' R) (hr : R i i') {x : Nat}
    (hx : s.soleList? i = some x) : ∃ x', s'.soleList? i' = some x' ∧ R x x' := by
  obtain ⟨hd, hcs, hl⟩ := soleList?_eq_some_iff.1 hx
  have hm := h.children hr
  rw [hcs] at hm
  obtain ⟨x', hcs', hxx⟩ := hm.singleton_left
  exact ⟨x', soleList?_eq_some_iff.2 ⟨h.kind hr ▸ hd, hcs', h.kind hxx ▸ hl⟩, hxx⟩

theorem rel_soleList? (h : Twins s root s' root' R) (hr : R i i') :
    Option.Rel R (s.soleList? i) (s'.soleList? i') := by
  cases hx : s.soleList? i with
  | some x =>
    obtain ⟨x', hx', hxx⟩ := h.exists_soleList? hr hx
    rw [hx']
    exact .some hxx
  | none =>
    cases hx' : s'.soleList? i' with
    | none => exact .none
    | some x' =>
      obtain ⟨x, he, -⟩ := h.symm.exists_soleList? hr hx'
      rw [hx] at he
      cases he

theorem isKeyReference (h : Twins s root s' root' R) (hn : R n n') (hm : R m m') :
    s.isKeyReference n m = s'.isKeyReference n' m' := by
  rw [Schema.isKeyReference, Schema.isKeyReference, h.kind hn, h.kind hm]

theorem matched_compressedOffers (h : Twins s root s' root' R) (p : Policy) (side : Side)
    (hn : R n n') (hm : R m m') :
    Matched (Offer.Alike R) (s.compressedOffers p side n m)
      (s'.compressedOffers p side n' m') := by
  rw [compressedOffers, compressedOffers, h.admits p hm, h.side? hm, h.isKeyReference hn hm]
  split
  · cases (s'.node m').side? with
    | some own => exact h.matched_liftedOffers _ hm
    | none =>
      have hsole := h.rel_soleList? hm
      generalize s.soleList? m = x at hsole ⊢
      generalize s'.soleList? m' = x' at hsole ⊢
      cases hsole with
      | some hx =>
        simp only [h.admits p hx]
        split
        · exact .singleton (.plain hx)
        · exact .nil
      | none =>
        simp only
        split
        · exact .nil
        · exact h.matched_plainOffers hm
  · exact .nil

theorem matched_scheduled (h : Twins s root s' root' R) (side : Side) (hr : R n n') :
    Matched R (s.scheduled side n) (s'.scheduled side n') := by
  obtain ⟨⟨hn, -⟩, hn', -⟩ := h.range hr
  rw [h.wired.scheduled_eq hn, h.wired'.scheduled_eq hn', h.kind hr]
  refine Matched.append ?_ ?_
  · split
    · exact (h.children hr).filter fun c c' hcc => by rw [h.name hcc]
    · exact .nil
  · exact (h.children hr).filter fun c c' hcc => by rw [h.name hcc]

theorem matched_offers (h : Twins s root s' root' R) (p : Policy) (hr : R n n') :
    Matched (Offer.Alike R) (s.offers p n) (s'.offers p n') := by
  unfold offers
  cases p.preferred? with
  | none =>
    refine Matched.flatMap ((h.children hr).filter fun c c' => h.admits p) ?_
    exact fun m _ m' hm => h.matched_plainOffers hm
  | some side =>
    exact (h.matched_scheduled side hr).flatMap fun m _ m' hm =>
      h.matched_compressedOffers p side hr hm

theorem matched_given (h : Twins s root s' root' R) (p : Policy) (hr : R n n') :
    Matched (Offer.Alike R) (s.given p n) (s'.given p n') := by
  rw [given, given, h.admits p hr]
  split
  · exact h.matched_offers p hr
  · exact .nil

/-! ## What twins keep and put on record -/

theorem mem_reservedNames_iff (h : Twins s root s' root' R) {offers offers' : List Offer}
    (ho : Matched (Offer.Alike R) offers offers') (name : Name) :
    name ∈ s.reservedNames offers ↔ name ∈ s'.reservedNames offers' := by
  have hm : Matched Eq (s.reservedNames offers) (s'.reservedNames offers') := by
    refine ho.filterMap fun o o' hoo => ?_
    cases hoo with
    | preferred hx => exact .some (h.name hx)
    | _ => exact .none
  constructor
  · intro hn
    obtain ⟨_, hn', rfl⟩ := hm.exists_of_mem hn
    exact hn'
  · intro hn
    obtain ⟨_, hn', rfl⟩ := hm.symm.exists_of_mem hn
    exact hn'

theorem matched_standing (h : Twins s root s' root' R) {offers offers' : List Offer}
    (ho : Matched (Offer.Alike R) offers offers') :
    Matched R (s.standing offers) (s'.standing offers') := by
  refine ho.filterMap fun o o' hoo => ?_
  cases hoo with
  | plain hx | preferred hx => exact .some hx
  | nested hx => exact .none
  | @deferred x x' hx =>
    simp only [Offer.standing?, h.mem_reservedNames_iff ho, h.name hx]
    split
    · exact .none
    · exact .some hx

theorem names_perm (h : Twins s root s' root' R) {xs xs' : List NodeId} (hx : Matched R xs xs') :
    (s.names xs).Perm (s'.names xs') :=
  hx.map_perm fun _ _ => h.name

theorem keys_perm (h : Twins s root s' root' R) (p : Policy) (hr : R n n') :
    (s.resolve p n).children.keys.Perm (s'.resolve p n').children.keys := by
  have hc : Matched R ((s.given p n).filterMap Offer.candidate?)
      ((s'.given p n').filterMap Offer.candidate?) := by
    refine (h.matched_given p hr).filterMap fun o o' hoo => ?_
    cases hoo with
    | nested hx => exact .none
    | plain hx | preferred hx | deferred hx => exact .some hx
  refine (List.perm_ext_iff_of_nodup (nodup_keys_resolve p n) (nodup_keys_resolve p n')).2 ?_
  intro key
  rw [mem_keys_resolve_iff, mem_keys_resolve_iff]
  exact (h.names_perm hc).mem_iff

theorem agrees (h : Twins s root s' root' R) (p : Policy) (hr : R n n') :
    (s.resolve p n).Agrees (s'.resolve p n') := by
  obtain ⟨⟨hn, -⟩, hn', -⟩ := h.range hr
  have hgiven := h.matched_given p hr
  have hkeys := h.keys_perm p hr
  refine ⟨hkeys, ?duplicates, ?nestedPairs⟩
  case duplicates =>
    have hall := (h.wired.tally_resolve p hn).trans
      ((h.names_perm (h.matched_standing hgiven)).trans (h.wired'.tally_resolve p hn').symm)
    exact (List.perm_append_left_iff _).1 (hall.trans (hkeys.symm.append_right _))
  case nestedPairs =>
    rw [h.wired.nestedPairs_resolve p hn, h.wired'.nestedPairs_resolve p hn']
    have hm : Matched Eq ((s.given p n).filterMap (Offer.note? s))
        ((s'.given p n').filterMap (Offer.note? s')) := by
      refine hgiven.filterMap fun o o' hoo => ?_
      cases hoo with
      | nested hx =>
        refine .some ?_
        rw [h.path hx, h.name hx]
      | _ => exact .none
    simpa using hm.map_perm (f := id) (g := id) fun _ _ e => e

/-- Without duplicates, what stands under a name is in the same place. -/
theorem related (h : Twins s root s' root' R) (hr : R n n')
    (hd : duplicateNames (s.resolve p n).defects = []) :
    Entries.Related R (s.resolve p n).children (s'.resolve p n').children := by
  intro key x x' hx hx'
  obtain ⟨⟨hn, -⟩, hn', -⟩ := h.range hr
  have hmem := Entries.mem_of_get? hx
  have hmem' := Entries.mem_of_get? hx'
  have hstand := h.matched_standing (h.matched_given p hr)
  -- no two of the nodes that stand have the same name
  have hnodup : (s'.names (s'.standing (s'.given p n'))).Nodup := by
    have htally := (h.wired.tally_resolve p hn).trans (h.names_perm hstand)
    rw [hd, List.append_nil] at htally
    exact htally.nodup_iff.1 (nodup_keys_resolve p n)
  have hin := h.wired.mem_standing_of_mem_values hn (Entries.mem_values_of_mem hmem)
  have hin' := h.wired'.mem_standing_of_mem_values hn' (Entries.mem_values_of_mem hmem')
  obtain ⟨y, hy, hxy⟩ := hstand.exists_of_mem hin
  have hname : (s'.node y).name = (s'.node x').name := by
    rw [← h.name hxy, (mem_candidates_of_mem_resolve hmem).2,
      (mem_candidates_of_mem_resolve hmem').2]
  exact List.inj_on_of_nodup_map hnodup hy hin' hname ▸ hxy

end Schema.Twins

/-! ## Walks of twins -/

/-- The same keys come in the same order. -/
theorem Entries.keys_orderedBy_eq {α β : Type} {m : Entries Name α} {m' : Entries Name β}
    (h : m.keys.Perm m'.keys) :
    (m.orderedBy Name.le).keys = (m'.orderedBy Name.le).keys := by
  have hperm : (m.orderedBy Name.le).keys.Perm (m'.orderedBy Name.le).keys :=
    ((m.orderedBy_perm Name.le).map Prod.fst).trans
      (h.trans ((m'.orderedBy_perm Name.le).map Prod.fst).symm)
  exact hperm.eq_of_pairwise (fun _ _ _ _ => Name.le_antisymm) m.pairwise_keys_orderedBy
    m'.pairwise_keys_orderedBy

/-- In the order of their names, children that are related under each name are related. -/
theorem ChildSet.forall₂_orderedChildren {R : Nat → Nat → Prop} {r r' : ChildSet}
    (hn : r.children.keys.Nodup) (hk : r.children.keys.Perm r'.children.keys)
    (hr : Entries.Related R r.children r'.children) :
    List.Forall₂ R r.orderedChildren r'.orderedChildren := by
  have hp := Entries.orderedBy_perm Name.le r.children
  have hp' := Entries.orderedBy_perm Name.le r'.children
  have hno := (hp.map Prod.fst).nodup_iff.2 hn
  have hno' := (hp'.map Prod.fst).nodup_iff.2 (hk.nodup_iff.1 hn)
  refine Entries.forall₂_values hno (Entries.keys_orderedBy_eq hk) fun {key x x'} hx hx' => ?_
  rw [Entries.get?_perm hp hno] at hx
  rw [Entries.get?_perm hp' hno'] at hx'
  exact hr hx hx'

namespace Schema.Twins

variable {s s' : Schema} {root root' : Nat} {R : Nat → Nat → Prop} {p : Policy} {n n' : Nat}

theorem forall₂_entityChildren (h : Twins s root s' root' R) (hr : R n n')
    (hd : duplicateNames (s.resolve p n).defects = []) :
    List.Forall₂ R (s.entityChildren p n) (s'.entityChildren p n') :=
  forall₂_filter
    (ChildSet.forall₂_orderedChildren (nodup_keys_resolve p n) (h.keys_perm p hr) (h.related hr hd))
    fun c c' hcc => by rw [h.kind hcc]

/-- Without duplicates on the way, a walk goes through the same places. -/
theorem forall₂_entities (h : Twins s root s' root' R) (hr : R n n')
    (hd : ∀ e ∈ s.entities p n, duplicateNames (s.resolve p e).defects = []) :
    List.Forall₂ R (s.entities p n) (s'.entities p n') :=
  h.wired.forall₂_entities h.wired' h.range hr fun he hee => h.forall₂_entityChildren hee (hd _ he)

theorem mem_subtree (h : Twins s root s' root' R) (hroot : R root root') {i : Nat}
    (hi : i ∈ s.subtree root) : ∃ i' ∈ s'.subtree root', R i i' := by
  have hsize := h.wired'.root_lt_size
  simp only [h.wired'.mem_subtree_iff (Nat.le_refl _) hsize]
  rcases (h.wired.mem_subtree_iff (Nat.le_refl _) h.wired.root_lt_size).1 hi with rfl | hb
  · exact ⟨root', .inl rfl, hroot⟩
  · clear hi
    induction hb with
    | single hc =>
      obtain ⟨c', hc', hcc⟩ := (h.children hroot).exists_of_mem hc
      exact ⟨c', .inr (below_child hc'), hcc⟩
    | tail _ hc ih =>
      obtain ⟨b', hb', hbb⟩ := ih
      obtain ⟨c', hc', hcc⟩ := (h.children hbb).exists_of_mem hc
      exact ⟨c', .inr (hb'.trans_below (below_child hc')), hcc⟩

end Schema.Twins

/-! ## Defects of a whole walk -/

namespace Schema

variable {s s' : Schema} {root root' : Nat} {R : Nat → Nat → Prop} {p : Policy} {n n' : Nat}

theorem Wired.defects_visits_eq_nil_iff (h : s.Wired root) (p : Policy) (hn : root ≤ n)
    (hlt : n < s.size) : Plan.defects ((Walk.start p n).visits s) = [] ↔
      ∀ e ∈ s.entities p n, (s.resolve p e).defects = [] := by
  rw [h.visits_eq p hn hlt, Plan.defects, List.flatMap_eq_nil_iff, List.forall_mem_map]
  rfl

namespace Twins

theorem defects_eq_nil (h : Twins s root s' root' R) (hr : R n n')
    (hd : (s.resolve p n).defects = []) : (s'.resolve p n').defects = [] := by
  obtain ⟨⟨hn, -⟩, hn', -⟩ := h.range hr
  have ha := h.agrees p hr
  have hdup := ha.duplicates
  have hnest := ha.nestedPairs
  rw [hd] at hdup hnest
  exact (h.wired'.defects_eq_nil_iff p hn').2
    ⟨List.nil_perm.1 hdup, List.nil_perm.1 hnest⟩

theorem forall₂_of_defects (h : Twins s root s' root' R) (hr : R n n')
    (hd : Plan.defects ((Walk.start p n).visits s) = []) :
    List.Forall₂ R (s.entities p n) (s'.entities p n') := by
  obtain ⟨⟨hn, hlt⟩, -⟩ := h.range hr
  have hd := (h.wired.defects_visits_eq_nil_iff p hn hlt).1 hd
  refine h.forall₂_entities hr fun e he => ?_
  rw [hd e he]
  rfl

theorem defects_visits_eq_nil (h : Twins s root s' root' R) (hr : R n n')
    (hd : Plan.defects ((Walk.start p n).visits s) = []) :
    Plan.defects ((Walk.start p n').visits s') = [] := by
  obtain ⟨⟨hn, hlt⟩, hn', hlt'⟩ := h.range hr
  have hall := Matched.of_forall₂ (h.forall₂_of_defects hr hd)
  have hd := (h.wired.defects_visits_eq_nil_iff p hn hlt).1 hd
  refine (h.wired'.defects_visits_eq_nil_iff p hn' hlt').2 fun e' he' => ?_
  obtain ⟨e, he, hee⟩ := hall.symm.exists_of_mem he'
  exact h.defects_eq_nil hee (hd e he)

end Twins

end Schema

/-- Two visits of nodes in the same place, with children in the same places. -/
structure Visit.Matches (R : Nat → Nat → Prop) (v v' : Visit) : Prop where
  node : R v.node v'.node
  children : ∀ key, Option.Rel R (v.resolved.children.get? key) (v'.resolved.children.get? key)

namespace Schema

variable {s s' : Schema} {root root' : Nat} {R : Nat → Nat → Prop} {p : Policy} {n n' : Nat}

theorem Twins.forall₂_visits (h : Twins s root s' root' R) (hr : R n n')
    (hd : Plan.defects ((Walk.start p n).visits s) = []) :
    List.Forall₂ (Visit.Matches R) ((Walk.start p n).visits s) ((Walk.start p n').visits s') := by
  obtain ⟨⟨hn, hlt⟩, hn', hlt'⟩ := h.range hr
  have hall := (List.forall₂_and_left _ _).2 ⟨fun e he => he, h.forall₂_of_defects hr hd⟩
  have hd := (h.wired.defects_visits_eq_nil_iff p hn hlt).1 hd
  rw [h.wired.visits_eq p hn hlt, h.wired'.visits_eq p hn' hlt', List.forall₂_map_left_iff,
    List.forall₂_map_right_iff]
  refine hall.imp fun e e' ⟨he, hee⟩ => ⟨hee, ?_⟩
  refine Entries.rel_get? (h.keys_perm p hee) (h.related hee ?_)
  rw [hd e he]
  rfl

/-- A description and a reordered one are told apart by nothing but the order of what is found. -/
theorem build_reordered {s₀ : Schema} {description description' : Value} {name : Name}
    {parent : Option NodeId} (hcl : s₀.Closed) (hp : ∀ q : Nat, parent = some q → q < s₀.size)
    (hd : description.Reordered description') (hb : s₀.build description name parent = .ok s) :
    ∃ s', s₀.build description' name parent = .ok s' ∧
      (∀ i ∈ s.subtree s₀.size, ∃ i' ∈ s'.subtree s₀.size,
        SamePlace s s₀.size s' s₀.size i i') ∧
      ∀ (p : Policy) (i i' : NodeId), SamePlace s s₀.size s' s₀.size i i' →
        (s.resolve p i).Agrees (s'.resolve p i') ∧
        (Plan.defects ((Walk.start p i).visits s) = [] ↔
          Plan.defects ((Walk.start p i').visits s') = []) ∧
        (Plan.defects ((Walk.start p i).visits s) = [] →
          List.Forall₂ (Visit.Matches (SamePlace s s₀.size s' s₀.size))
            ((Walk.start p i).visits s) ((Walk.start p i').visits s')) := by
  obtain ⟨s', hb', h⟩ := exists_twins hcl hp hd hb
  refine ⟨s', hb', fun i hi => h.mem_subtree .root hi, fun p i i' hr => ⟨h.agrees p hr, ?_, ?_⟩⟩
  · exact ⟨h.defects_visits_eq_nil hr, h.symm.defects_visits_eq_nil hr⟩
  · exact h.forall₂_visits hr

/-- The port with all that it has in another order, at both levels. -/
def mirroredDescription : Value :=
  .map [("children", .map [
    ("units", .map [("children", .map [("unit", .map [("kind", .str "list"),
      ("children", .map [("id", .map [])])])])]),
    ("state", .map [("config", .bool false),
      ("children", .map [("name", .map []), ("up", .map [])])]),
    ("config", .map [("children", .map [("mtu", .map []), ("name", .map [])])])])]

theorem portDescription_reordered : portDescription.Reordered mirroredDescription := by
  have hconfig : Value.Reordered
      (.map [("children", .map [("name", .map []), ("mtu", .map [])])])
      (.map [("children", .map [("mtu", .map []), ("name", .map [])])]) :=
    @Value.Reordered.children [] [] _ _ nofun (.swap _ _ _ (by decide))
  refine @Value.Reordered.children [] [] _ _ nofun (.trans (.cons "config" hconfig (.refl _)) ?_)
  exact .of_perm (List.reverse_perm _).symm (by decide)

theorem build_reordered_portDescription :
    empty.Closed ∧ portDescription.Reordered mirroredDescription ∧
      empty.build portDescription (some "port") none = .ok portSchema ∧
      ∃ s', empty.build mirroredDescription (some "port") none = .ok s' ∧
        ∀ (p : Policy) (i i' : NodeId), SamePlace portSchema 0 s' 0 i i' →
          (portSchema.resolve p i).Agrees (s'.resolve p i') := by
  have hb : empty.build portDescription (some "port") none = .ok portSchema := rfl
  have hp : ∀ q : Nat, (none : Option NodeId) = some q → q < empty.size := nofun
  obtain ⟨s', hb', -, h⟩ := build_reordered closed_empty hp portDescription_reordered hb
  exact ⟨closed_empty, portDescription_reordered, hb, s', hb', fun p i i' hr => (h p i i' hr).1⟩

end Schema

end DataTree
