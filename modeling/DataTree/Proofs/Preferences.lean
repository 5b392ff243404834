import DataTree.Proofs.Standing

/-!
# The two preferences

Which side is preferred shows in the order of the offers, and in which of them reserve their name
or give way. What is offered is the same (`Wired.unsided_offers_perm`). So a container or list has
the same names and the same notes about nested sides either way (`IsBuilt.preferences_agree`): an
offer that gives way only does so to one of the same name.
-/

namespace DataTree

open Defect (nestedPairs)

variable {s : Schema} {root n : Nat} {p p' : Policy}

namespace Offer

/-- The offer without what the preference makes of it. -/
def unsided : Offer → Offer
  | plain x | preferred x | deferred x => plain x
  | nested x => nested x

theorem candidate?_unsided (o : Offer) : o.unsided.candidate? = o.candidate? := by
  cases o <;> rfl

theorem note?_unsided (o : Offer) : o.unsided.note? s = o.note? s := by
  cases o <;> rfl

end Offer

namespace Schema

theorem unsided_liftedOffers (preferred preferred' : Bool) (m : NodeId) :
    (s.liftedOffers preferred m).map Offer.unsided =
      (s.liftedOffers preferred' m).map Offer.unsided := by
  unfold liftedOffers
  rw [List.map_flatMap, List.map_flatMap]
  refine List.flatMap_congr fun c _ => ?_
  rw [List.map_append, List.map_append, List.map_map, List.map_map]
  cases preferred <;> cases preferred' <;> rfl

/-- A child offers the same to either preference. -/
theorem unsided_compressedOffers (ha : ∀ i, s.admits p i = s.admits p' i) (side side' : Side)
    (m : NodeId) :
    (s.compressedOffers p side n m).map Offer.unsided =
      (s.compressedOffers p' side' n m).map Offer.unsided := by
  unfold compressedOffers
  rw [ha m]
  split
  · cases (s.node m).side? with
    | some own => exact unsided_liftedOffers _ _ m
    | none =>
      cases s.soleList? m with
      | some inner => simp only [ha inner]
      | none => rfl
  · rfl

theorem unsided_childOffers (hp : p.compresses = true) (hp' : p'.compresses = true)
    (ha : ∀ i, s.admits p i = s.admits p' i) (m : NodeId) :
    (s.childOffers p n m).map Offer.unsided = (s.childOffers p' n m).map Offer.unsided := by
  obtain ⟨side, hside⟩ := Option.isSome_iff_exists.1 hp
  obtain ⟨side', hside'⟩ := Option.isSome_iff_exists.1 hp'
  simp only [childOffers, hside, hside']
  exact unsided_compressedOffers ha side side' m

namespace Wired

theorem unsided_offers_perm (h : s.Wired root) (hn : root ≤ n)
    (hk : (s.node n).kind.isEntity = true) (hp : p.compresses = true)
    (hp' : p'.compresses = true) (ha : ∀ i, s.admits p i = s.admits p' i) :
    ((s.offers p n).map Offer.unsided).Perm ((s.offers p' n).map Offer.unsided) := by
  have hperm : (s.considered p n).Perm (s.considered p' n) :=
    (h.considered_perm hn fun _ => hk).trans (h.considered_perm hn fun _ => hk).symm
  rw [offers_eq_flatMap, offers_eq_flatMap, List.map_flatMap, List.map_flatMap]
  have hsame : (s.considered p' n).flatMap (fun m => (s.childOffers p n m).map Offer.unsided) =
      (s.considered p' n).flatMap fun m => (s.childOffers p' n m).map Offer.unsided :=
    List.flatMap_congr fun m _ => unsided_childOffers hp hp' ha m
  rw [← hsame]
  exact hperm.flatMap_right _

theorem unsided_given_perm (h : s.Wired root) (hn : root ≤ n)
    (hk : (s.node n).kind.isEntity = true) (hp : p.compresses = true)
    (hp' : p'.compresses = true) (ha : ∀ i, s.admits p i = s.admits p' i) :
    ((s.given p n).map Offer.unsided).Perm ((s.given p' n).map Offer.unsided) := by
  unfold given
  rw [ha n]
  split
  · exact h.unsided_offers_perm hn hk hp hp' ha
  · exact .refl _

/-- What does not look at sides finds the same in the offers to either preference. -/
theorem filterMap_given_perm (h : s.Wired root) (hn : root ≤ n)
    (hk : (s.node n).kind.isEntity = true) (hp : p.compresses = true)
    (hp' : p'.compresses = true) (ha : ∀ i, s.admits p i = s.admits p' i) {β : Type}
    {f : Offer → Option β} (hf : ∀ o : Offer, f o.unsided = f o) :
    ((s.given p n).filterMap f).Perm ((s.given p' n).filterMap f) := by
  have hmap : ∀ offers : List Offer, offers.filterMap f = (offers.map Offer.unsided).filterMap f :=
    fun offers => by
      rw [List.filterMap_map]
      exact List.filterMap_congr fun o _ => (hf o).symm
  rw [hmap, hmap (s.given p' n)]
  exact (h.unsided_given_perm hn hk hp hp' ha).filterMap f

end Wired

/-! ## Names and notes -/

/-- The names of the children do not depend on the preference, nor do the notes about nested
sides; whatever else is on record is a duplicate. -/
theorem IsBuilt.preferences_agree (h : s.IsBuilt root) (hn : n ∈ s.subtree root)
    (hk : (s.node n).kind.isEntity = true) :
    (s.resolve .compressedPreferConfig n).children.keys.Perm
        (s.resolve .compressedPreferState n).children.keys ∧
      (nestedPairs (s.resolve .compressedPreferConfig n).defects).Perm
        (nestedPairs (s.resolve .compressedPreferState n).defects) ∧
      ∀ d ∈ (s.resolve .compressedPreferConfig n).defects ++
          (s.resolve .compressedPreferState n).defects,
        d.form = .duplicate ∨ d.form = .nestedPair := by
  have hw := h.wired
  obtain ⟨hrn, -⟩ := h.range_of_mem_subtree hn
  have hsame : ∀ {β : Type} {f : Offer → Option β}, (∀ o : Offer, f o.unsided = f o) →
      ((s.given .compressedPreferConfig n).filterMap f).Perm
        ((s.given .compressedPreferState n).filterMap f) := fun hf => by
    apply hw.filterMap_given_perm hrn hk rfl rfl _ hf
    exact fun _ => rfl
  refine ⟨?names, ?notes, fun d hd => ?forms⟩
  case names =>
    refine (List.perm_ext_iff_of_nodup (nodup_keys_resolve _ n) (nodup_keys_resolve _ n)).2 ?_
    intro key
    rw [mem_keys_resolve_iff, mem_keys_resolve_iff]
    exact ((hsame Offer.candidate?_unsided).map _).mem_iff
  case notes =>
    rw [hw.nestedPairs_resolve _ hrn, hw.nestedPairs_resolve _ hrn]
    exact hsame Offer.note?_unsided
  case forms =>
    rcases List.mem_append.1 hd with hd | hd
    · exact hw.form_of_mem_defects hrn hd
    · exact hw.form_of_mem_defects hrn hd

/-- A link with a side inside a side, and under the same name a leaf of the other side. -/
def linkDescription : Value :=
  .map [("children", .map [
    ("state", .map [("config", .bool false), ("children", .map [("speed", .map []),
      ("config", .map [("children", .map [("up", .map [])])])])]),
    ("speed", .map []),
    ("config", .map [("children", .map [("speed", .map []),
      ("mode", .map [("kind", .str "choice"),
        ("children", .map [("auto", .map []), ("config", .map [])])])])])])]

def linkSchema : Schema :=
  ((empty.build linkDescription (some "link") none).toOption).getD empty

theorem linkSchema_isBuilt : linkSchema.IsBuilt 0 :=
  ⟨empty, linkDescription, some "link", none, nofun, rfl, rfl⟩

theorem preferences_agree_linkSchema :
    linkSchema.IsBuilt 0 ∧ 0 ∈ linkSchema.subtree 0 ∧
      (linkSchema.node 0).kind.isEntity = true ∧
      (linkSchema.resolve .compressedPreferConfig 0).children.keys.Perm
        (linkSchema.resolve .compressedPreferState 0).children.keys ∧
      (nestedPairs (linkSchema.resolve .compressedPreferConfig 0).defects).Perm
        (nestedPairs (linkSchema.resolve .compressedPreferState 0).defects) := by
  have hn : 0 ∈ linkSchema.subtree 0 := by decide
  have hk : (linkSchema.node 0).kind.isEntity = true := by decide
  obtain ⟨hnames, hnotes, -⟩ := linkSchema_isBuilt.preferences_agree hn hk
  exact ⟨linkSchema_isBuilt, hn, hk, hnames, hnotes⟩

/-- The leaf stands under the name where its side is preferred, else the side inside a side. -/
example : (linkSchema.resolve .compressedPreferConfig 0).children.get? (some "config") = some 10 ∧
    (linkSchema.resolve .compressedPreferState 0).children.get? (some "config") = some 3 := by
  decide

end Schema

end DataTree
