import DataTree.Proofs.Collected

/-!
# Offers that stand

An offer gives way in silence if it comes from the other side and the preferred side reserved its
name; all others stand. The preferred side offers before the other one (`Wired.inTurn_offers`), so
which offers stand does not depend on the order in which they come. Of the offers that stand, each
is kept or puts its name on record as a duplicate: names kept and names on record together are the
names of what stands (`Wired.tally_resolve`).
-/

namespace DataTree

variable {s : Schema} {root : Nat} {p : Policy}

/-! ## Kinds of defects -/

namespace Defect

def duplicateNames (ds : List Defect) : List Name :=
  (ds.filter fun d => d.form = .duplicate).map Defect.name

def nestedPairs (ds : List Defect) : List Defect :=
  ds.filter fun d => d.form = .nestedPair

@[simp] theorem duplicateNames_append (ds ds' : List Defect) :
    duplicateNames (ds ++ ds') = duplicateNames ds ++ duplicateNames ds' := by
  simp [duplicateNames]

@[simp] theorem nestedPairs_append (ds ds' : List Defect) :
    nestedPairs (ds ++ ds') = nestedPairs ds ++ nestedPairs ds' := by
  simp [nestedPairs]

theorem mem_duplicateNames_iff {ds : List Defect} {name : Name} :
    name ∈ duplicateNames ds ↔ ∃ d ∈ ds, d.form = .duplicate ∧ d.name = name := by
  simp [duplicateNames, and_assoc]

theorem mem_nestedPairs_iff {ds : List Defect} {d : Defect} :
    d ∈ nestedPairs ds ↔ d ∈ ds ∧ d.form = .nestedPair := by
  simp [nestedPairs]

end Defect

open Defect (duplicateNames nestedPairs)

/-! ## Offers -/

namespace Offer

/-- The node of an offer that is kept or put on record, when these names are reserved. -/
def standing? (s : Schema) (reserved : List Name) : Offer → Option NodeId
  | deferred x => if (s.node x).name ∈ reserved then none else some x
  | o => o.candidate?

def isPreferred : Offer → Bool
  | preferred _ => true
  | _ => false

def isDeferred : Offer → Bool
  | deferred _ => true
  | _ => false

/-- After a member of the other side, none of the preferred side comes. -/
def InTurn (o o' : Offer) : Prop :=
  o.isDeferred = true → o'.isPreferred = false

end Offer

namespace Schema

def reservedNames (s : Schema) (offers : List Offer) : List Name :=
  offers.filterMap (Offer.reserved? s)

def standing (s : Schema) (offers : List Offer) : List NodeId :=
  offers.filterMap (Offer.standing? s (s.reservedNames offers))

/-- The names of nodes, in their order. -/
def names (s : Schema) (xs : List NodeId) : List Name :=
  xs.map fun x => (s.node x).name

end Schema

namespace Collector

variable {c : Collector}

/-! ## One offer -/

/-- All that taking an offer can do to the children and to the record. -/
theorem take_cases (hc : c.Sound) (o : Offer) :
    (o.standing? s c.reserved = none ∧ (c.take s o).children = c.children ∧
      duplicateNames (c.complaints s o) = []) ∨
    ∃ x, o.standing? s c.reserved = some x ∧ (c.take s o).children = s.keep c.children x ∧
      duplicateNames (c.complaints s o) =
        if (s.node x).name ∈ c.children.keys then [(s.node x).name] else [] := by
  rw [take_children hc]
  cases o with
  | nested x => exact .inl ⟨rfl, rfl, rfl⟩
  | plain x | preferred x =>
    refine .inr ⟨x, rfl, rfl, ?_⟩
    rw [complaints]
    split <;> rfl
  | deferred x =>
    by_cases hr : (s.node x).name ∈ c.reserved
    · refine .inl ⟨if_pos hr, Entries.addNew_of_mem (hc _ hr) x, ?_⟩
      simp [complaints, hr, duplicateNames]
    · refine .inr ⟨x, if_neg hr, rfl, ?_⟩
      simp only [complaints, hr, not_false_eq_true, and_true]
      split <;> rfl

theorem nestedPairs_complaints (o : Offer) :
    nestedPairs (c.complaints s o) = (o.note? s).toList := by
  cases o with
  | nested x => rfl
  | _ =>
    rw [complaints]
    split <;> rfl

theorem form_of_mem_complaints {o : Offer} {d : Defect} (hd : d ∈ c.complaints s o) :
    d.form = .duplicate ∨ d.form = .nestedPair := by
  cases o with
  | nested x => exact .inr (List.mem_singleton.1 hd ▸ rfl)
  | _ =>
    rw [complaints] at hd
    split at hd
    · exact .inl (List.mem_singleton.1 hd ▸ rfl)
    · cases hd

/-- An offer that stands puts its name among the children or on record. -/
theorem tally_take (hc : c.Sound) (o : Offer) :
    ((c.take s o).children.keys ++ duplicateNames (c.take s o).defects).Perm
      (c.children.keys ++ duplicateNames c.defects ++
        s.names (o.standing? s c.reserved).toList) := by
  rw [take_defects, Defect.duplicateNames_append]
  rcases take_cases (s := s) hc o with ⟨hs, hch, hdup⟩ | ⟨x, hs, hch, hdup⟩
  · rw [hs, hch, hdup]
    simp [Schema.names]
  · rw [hs, hch, hdup, Schema.keep]
    by_cases hk : (s.node x).name ∈ c.children.keys
    · rw [Entries.addNew_of_mem hk, if_pos hk, List.append_assoc]
      rfl
    · rw [Entries.addNew_of_not_mem hk, if_neg hk, List.append_nil, Entries.keys, Entries.keys,
        List.map_append, List.append_assoc, List.append_assoc]
      exact List.perm_append_comm.append_left _

/-! ## All offers -/

/-- From a member of the other side on, no name is reserved. -/
theorem reservedNames_of_inTurn {x : NodeId} {offers : List Offer}
    (ht : ∀ o' ∈ offers, (Offer.deferred x).InTurn o') :
    s.reservedNames (.deferred x :: offers) = [] := by
  refine List.filterMap_eq_nil_iff.2 fun o ho => ?_
  rcases List.mem_cons.1 ho with rfl | ho
  · rfl
  · have := ht o ho rfl
    cases o with
    | preferred y => cases this
    | _ => rfl

/-- An offer stands at its turn if it stands in the end. -/
theorem standing?_of_inTurn {o : Offer} {offers : List Offer} {reserved : List Name}
    (ht : ∀ o' ∈ offers, o.InTurn o')
    (hr : ∀ name, name ∈ reserved ↔ name ∈ c.reserved ∨ name ∈ s.reservedNames (o :: offers)) :
    o.standing? s reserved = o.standing? s c.reserved := by
  cases o with
  | deferred x =>
    simp only [Offer.standing?, hr, reservedNames_of_inTurn ht, List.not_mem_nil, or_false]
  | _ => rfl

/-- Names that are reserved in the end, seen after one more offer. -/
theorem mem_reserved_take_iff {o : Offer} {offers : List Offer} {reserved : List Name}
    (hr : ∀ name, name ∈ reserved ↔ name ∈ c.reserved ∨ name ∈ s.reservedNames (o :: offers))
    (name : Name) :
    name ∈ reserved ↔ name ∈ (c.take s o).reserved ∨ name ∈ s.reservedNames offers := by
  rw [hr, take_reserved, Schema.reservedNames, Schema.reservedNames, List.filterMap_cons]
  cases o.reserved? s <;> simp [or_left_comm, or_assoc]

/-- What holds of a list of offers, taken after those before it. -/
structure Tally (s : Schema) (c : Collector) (reserved : List Name) (offers : List Offer)
    (final : Collector) : Prop where
  names : (final.children.keys ++ duplicateNames final.defects).Perm
    (c.children.keys ++ duplicateNames c.defects ++
      s.names (offers.filterMap (Offer.standing? s reserved)))
  notes : nestedPairs final.defects = nestedPairs c.defects ++ offers.filterMap (Offer.note? s)
  values : ∀ {x : NodeId}, x ∈ final.children.values → x ∈ c.children.values ∨
    x ∈ offers.filterMap (Offer.standing? s reserved)
  forms : ∀ {d : Defect}, d ∈ final.defects → d ∈ c.defects ∨
    (d.form = .duplicate ∨ d.form = .nestedPair)

theorem values_take (hc : c.Sound) {o : Offer} {x : NodeId}
    (hx : x ∈ (c.take s o).children.values) :
    x ∈ c.children.values ∨ o.standing? s c.reserved = some x := by
  rcases take_cases (s := s) hc o with ⟨-, hch, -⟩ | ⟨y, hs, hch, -⟩
  · exact .inl (hch ▸ hx)
  · rw [hch, Schema.keep] at hx
    by_cases hk : (s.node y).name ∈ c.children.keys
    · rw [Entries.addNew_of_mem hk] at hx
      exact .inl hx
    · rw [Entries.addNew_of_not_mem hk, Entries.values, List.map_append] at hx
      rcases List.mem_append.1 hx with hx | hx
      · exact .inl hx
      · rw [hs, List.mem_singleton.1 hx]
        exact .inr rfl

theorem tally_foldl_take (hc : c.Sound) {offers : List Offer} (ht : offers.Pairwise Offer.InTurn)
    {reserved : List Name}
    (hr : ∀ name, name ∈ reserved ↔ name ∈ c.reserved ∨ name ∈ s.reservedNames offers) :
    Tally s c reserved offers (offers.foldl (Collector.take s) c) := by
  induction offers generalizing c with
  | nil => exact ⟨by simp [Schema.names], by simp, fun hx => .inl hx, fun hd => .inl hd⟩
  | cons o offers ih =>
    obtain ⟨hto, ht⟩ := List.pairwise_cons.1 ht
    have hstand := standing?_of_inTurn hto hr
    have h := ih (hc.take o) ht (mem_reserved_take_iff hr)
    have hcons : ∀ {β : Type} (f : Offer → Option β),
        (o :: offers).filterMap f = (f o).toList ++ offers.filterMap f := fun f => by
      rw [List.filterMap_cons]
      cases f o <;> rfl
    refine ⟨?names, ?notes, fun hx => ?values, fun hd => ?forms⟩
    case names =>
      rw [hcons, hstand, Schema.names, List.map_append, ← List.append_assoc]
      exact h.names.trans ((tally_take hc o).append_right _)
    case notes =>
      rw [List.foldl_cons, h.notes, take_defects, Defect.nestedPairs_append,
        nestedPairs_complaints, hcons, List.append_assoc]
    case values =>
      rw [hcons, List.mem_append, Option.mem_toList, hstand]
      rcases h.values hx with hx | hx
      · exact (values_take hc hx).imp_right .inl
      · exact .inr (.inr hx)
    case forms =>
      rcases h.forms hd with hd | hf
      · rw [take_defects] at hd
        exact (List.mem_append.1 hd).imp_right form_of_mem_complaints
      · exact .inr hf

end Collector

/-! ## The offers to a node -/

namespace Schema

theorem mem_liftedOffers {preferred : Bool} {i : Nat} {o : Offer}
    (ho : o ∈ s.liftedOffers preferred i) : (∃ c, o = .nested c) ∨
      ∃ x ∈ s.members i, o = if preferred then .preferred x else .deferred x := by
  rw [liftedOffers, List.mem_flatMap] at ho
  obtain ⟨c, hc, ho⟩ := ho
  rcases List.mem_append.1 ho with ho | ho
  · split at ho
    · exact .inl ⟨c, List.mem_singleton.1 ho⟩
    · cases ho
  · obtain ⟨x, hx, rfl⟩ := List.mem_map.1 ho
    refine .inr ⟨x, List.mem_flatMap.2 ⟨c, hc, hx⟩, ?_⟩
    cases preferred <;> rfl

/-- Only a side makes offers that reserve a name or give way. -/
theorem side_of_compressedOffers {side : Side} {n m : Nat} {o : Offer}
    (ho : o ∈ s.compressedOffers p side n m) (hplain : ∀ x, o ≠ .plain x)
    (hnote : ∀ x, o ≠ .nested x) : ∃ x ∈ s.members m,
      (s.node m).side? = some side ∧ o = .preferred x ∨
      (s.node m).side? = some side.other ∧ o = .deferred x := by
  unfold compressedOffers at ho
  split at ho
  · split at ho
    · rename_i own hs
      rcases mem_liftedOffers ho with ⟨c, rfl⟩ | ⟨x, hx, rfl⟩
      · exact (hnote c rfl).elim
      · refine ⟨x, hx, ?_⟩
        by_cases e : own = side
        · exact .inl ⟨e ▸ hs, by simp [e]⟩
        · exact .inr ⟨Side.eq_other_of_ne e ▸ hs, by simp [e]⟩
    · split at ho
      · split at ho
        · exact (hplain _ (List.mem_singleton.1 ho)).elim
        · cases ho
      · split at ho
        · cases ho
        · obtain ⟨x, -, rfl⟩ := List.mem_map.1 ho
          exact (hplain x rfl).elim
  · cases ho

theorem name_of_preferred {side : Side} {n m : Nat} {o : Offer}
    (ho : o ∈ s.compressedOffers p side n m) (hp : o.isPreferred = true) :
    (s.node m).name = some side.name := by
  cases o with
  | preferred x =>
    obtain ⟨y, -, ⟨hs, -⟩ | ⟨-, e⟩⟩ := side_of_compressedOffers ho nofun nofun
    · exact (Node.side?_eq_some_iff.1 hs).2
    · cases e
  | _ => cases hp

theorem name_of_deferred {side : Side} {n m : Nat} {o : Offer}
    (ho : o ∈ s.compressedOffers p side n m) (hd : o.isDeferred = true) :
    (s.node m).name ≠ some side.name := by
  cases o with
  | deferred x =>
    obtain ⟨y, -, ⟨-, e⟩ | ⟨hs, -⟩⟩ := side_of_compressedOffers ho nofun nofun
    · cases e
    · rw [(Node.side?_eq_some_iff.1 hs).2]
      cases side <;> decide
  | _ => cases hd

/-- The preferred side offers before the other one. -/
theorem Wired.inTurn_offers (h : s.Wired root) (p : Policy) {n : Nat} (hn : root ≤ n) :
    (s.offers p n).Pairwise Offer.InTurn := by
  unfold offers
  cases p.preferred? with
  | none =>
    refine List.pairwise_of_forall_mem_list fun o ho _ _ hd => ?_
    obtain ⟨m, -, ho⟩ := List.mem_flatMap.1 ho
    obtain ⟨x, -, rfl⟩ := List.mem_map.1 ho
    cases hd
  | some side =>
    simp only [h.scheduled_eq hn, List.flatMap_append, List.pairwise_append]
    have hfirst : ∀ o ∈ List.flatMap (s.compressedOffers p side n)
        (if (s.node n).kind.isEntity then
          (s.children n).filter fun c => (s.node c).name = some side.name else []),
        o.isDeferred = false := fun o ho => by
      obtain ⟨m, hm, ho⟩ := List.mem_flatMap.1 ho
      rw [Bool.eq_false_iff]
      refine fun hd => name_of_deferred ho hd ?_
      split at hm
      · exact of_decide_eq_true (List.mem_filter.1 hm).2
      · cases hm
    have hrest : ∀ o ∈ List.flatMap (s.compressedOffers p side n)
        ((s.children n).filter fun c => (s.node c).name ≠ some side.name),
        o.isPreferred = false := fun o ho => by
      obtain ⟨m, hm, ho⟩ := List.mem_flatMap.1 ho
      rw [Bool.eq_false_iff]
      exact fun hp => of_decide_eq_true (List.mem_filter.1 hm).2 (name_of_preferred ho hp)
    refine ⟨?_, ?_, ?_⟩
    · exact List.pairwise_of_forall_mem_list fun o ho _ _ hd => by simp [hfirst o ho] at hd
    · exact List.pairwise_of_forall_mem_list fun _ _ o ho _ => hrest o ho
    · exact fun o ho _ _ hd => by simp [hfirst o ho] at hd

/-- The offers that count for the children of a node. -/
def given (s : Schema) (p : Policy) (n : NodeId) : List Offer :=
  if s.admits p n then s.offers p n else []

theorem mem_keys_resolve_iff {n : Nat} {key : Name} : key ∈ (s.resolve p n).children.keys ↔
    key ∈ s.names ((s.given p n).filterMap Offer.candidate?) := by
  rw [resolve_children_eq, given, names, List.mem_map]
  split
  · exact mem_keys_firsts_iff
  · simp [Entries.keys]

theorem resolve_eq_ofOffers (p : Policy) (n : NodeId) :
    s.resolve p n = .ofOffers s (s.given p n) := by
  unfold resolve given
  split <;> rfl

theorem Wired.tally_given (h : s.Wired root) (p : Policy) {n : Nat} (hn : root ≤ n) :
    Collector.Tally s .empty (s.reservedNames (s.given p n)) (s.given p n)
      ((s.given p n).foldl (Collector.take s) .empty) := by
  have ht : (s.given p n).Pairwise Offer.InTurn := by
    unfold given
    split
    · exact h.inTurn_offers p hn
    · exact .nil
  exact Collector.tally_foldl_take Collector.sound_empty ht fun name => by
    simp [Collector.empty]

/-- Names kept and names on record as duplicates are the names of what stands. -/
theorem Wired.tally_resolve (h : s.Wired root) (p : Policy) {n : Nat} (hn : root ≤ n) :
    ((s.resolve p n).children.keys ++ duplicateNames (s.resolve p n).defects).Perm
      (s.names (s.standing (s.given p n))) := by
  rw [resolve_eq_ofOffers]
  exact (h.tally_given p hn).names

theorem Wired.nestedPairs_resolve (h : s.Wired root) (p : Policy) {n : Nat} (hn : root ≤ n) :
    nestedPairs (s.resolve p n).defects = (s.given p n).filterMap (Offer.note? s) := by
  rw [resolve_eq_ofOffers]
  exact (h.tally_given p hn).notes

theorem Wired.mem_standing_of_mem_values (h : s.Wired root) {n x : Nat} (hn : root ≤ n)
    (hx : x ∈ (s.resolve p n).children.values) : x ∈ s.standing (s.given p n) := by
  rw [resolve_eq_ofOffers] at hx
  exact ((h.tally_given p hn).values hx).resolve_left List.not_mem_nil

/-- There are no other defects than duplicates and nested sides. -/
theorem Wired.form_of_mem_defects (h : s.Wired root) {n : Nat} (hn : root ≤ n) {d : Defect}
    (hd : d ∈ (s.resolve p n).defects) : d.form = .duplicate ∨ d.form = .nestedPair := by
  rw [resolve_eq_ofOffers] at hd
  exact ((h.tally_given p hn).forms hd).resolve_left List.not_mem_nil

theorem Wired.defects_eq_nil_iff (h : s.Wired root) (p : Policy) {n : Nat} (hn : root ≤ n) :
    (s.resolve p n).defects = [] ↔ duplicateNames (s.resolve p n).defects = [] ∧
      nestedPairs (s.resolve p n).defects = [] := by
  constructor
  · intro e
    rw [e]
    exact ⟨rfl, rfl⟩
  · rintro ⟨hdup, hnest⟩
    refine List.eq_nil_iff_forall_not_mem.2 fun d hd => ?_
    rcases h.form_of_mem_defects hn hd with hf | hf
    · have := Defect.mem_duplicateNames_iff.2 ⟨d, hd, hf, rfl⟩
      rw [hdup] at this
      cases this
    · have := Defect.mem_nestedPairs_iff.2 ⟨hd, hf⟩
      rw [hnest] at this
      cases this

end Schema

end DataTree
