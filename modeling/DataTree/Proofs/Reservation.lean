import DataTree.Proofs.Insertions
import DataTree.Proofs.Standing

/-!
# What is reserved

The preferred side of a node offers before all else, and nothing else reserves a name. So every
reserved name stands for a member of that side, from the step at which it is reserved to the last
one (`Reservation.won`).

A member of the other side is inserted only if its name is not reserved. Its guard tolerates
reserved names alone, so it never has to, and a strict guard would do as well
(`Collector.takeWith_eq_take`).
-/

namespace DataTree

variable {s : Schema} {root : Nat} {p : Policy}

/-! ## The insertions of a step -/

namespace Collector

variable {c : Collector}

/-- An offer is taken alike under any guard for the other side: names that a guard could forgive
are not inserted. -/
theorem takeWith_eq_take (guard : Guard) (o : Offer) : c.takeWith s guard o = c.take s o := by
  cases o with
  | deferred x =>
    by_cases hr : (s.node x).name ∈ c.reserved
    · rw [take, takeWith_of_no_request (requests_of_reserved hr),
        takeWith_of_no_request (requests_of_reserved hr)]
    · have hforgives : ∀ g : Guard, g.forgives c.reserved (s.node x).name = false := fun g => by
        simp [Guard.forgives, hr]
      rw [take, takeWith_of_request (requests_of_not_reserved hr),
        takeWith_of_request (requests_of_not_reserved hr), hforgives, hforgives]
  | _ => rfl

/-- A tolerant insertion is of a name that is not reserved. -/
theorem not_mem_whitelist_of_tolerant {guard : Guard} {o : Offer} {r : Insertion NodeId}
    (hr : r ∈ c.requests s guard o) (hg : r.guard = .tolerant) : r.name ∉ r.whitelist := by
  cases o with
  | plain x | preferred x =>
    cases List.mem_singleton.1 hr
    cases hg
  | nested x => cases hr
  | deferred x =>
    rw [requests] at hr
    split at hr
    · cases hr
    · cases List.mem_singleton.1 hr
      assumption

theorem mem_reserved_foldl_take {offers : List Offer} {name : Name} :
    name ∈ (offers.foldl (Collector.take s) c).reserved ↔
      name ∈ c.reserved ∨ name ∈ s.reservedNames offers := by
  induction offers generalizing c with
  | nil => simp [Schema.reservedNames]
  | cons o offers ih =>
    rw [List.foldl_cons, ih, take_reserved, Schema.reservedNames, Schema.reservedNames,
      List.filterMap_cons]
    cases o.reserved? s <;> simp [or_left_comm, or_assoc]

end Collector

/-! ## The preferred side comes first -/

namespace Schema

theorem mem_reservedNames_iff {offers : List Offer} {name : Name} :
    name ∈ s.reservedNames offers ↔ ∃ x, .preferred x ∈ offers ∧ (s.node x).name = name := by
  rw [reservedNames, List.mem_filterMap]
  constructor
  · rintro ⟨o, ho, hr⟩
    cases o with
    | preferred x => exact ⟨x, ho, Option.some.inj hr⟩
    | _ => cases hr
  · rintro ⟨x, hx, rfl⟩
    exact ⟨_, hx, rfl⟩

variable {side : Side} {n m : Nat}

/-- The children that have other names than the preferred side. -/
def others (s : Schema) (side : Side) (n : NodeId) : List NodeId :=
  (s.children n).filter fun c => (s.node c).name ≠ some side.name

theorem not_preferred_others (x : NodeId) :
    .preferred x ∉ (s.others side n).flatMap (s.compressedOffers p side n) := by
  intro hx
  obtain ⟨m, hm, hx⟩ := List.mem_flatMap.1 hx
  exact of_decide_eq_true (List.mem_filter.1 hm).2 (name_of_preferred hx rfl)

/-- Of the two sides, the preferred one offers its members before all other children offer. -/
theorem Wired.given_eq (h : s.Wired root) (hn : root ≤ n) (hp : p.preferred? = some side)
    (hk : (s.node n).kind.isEntity = true) (ha : s.admits p n = true) (hm : m ∈ s.children n)
    (hs : (s.node m).side? = some side) (ham : s.admits p m = true) :
    s.given p n =
      s.liftedOffers true m ++ (s.others side n).flatMap (s.compressedOffers p side n) := by
  have hfound : (s.node n).children.get? (some side.name) = some m := by
    rw [← Option.mem_toList, h.toList_get?_eq_filter hn, List.mem_filter]
    exact ⟨hm, decide_eq_true (Node.side?_eq_some_iff.1 hs).2⟩
  have hlift : s.compressedOffers p side n m = s.liftedOffers true m := by
    simp [compressedOffers, ham, hs]
  have hsched : s.scheduled side n = m :: s.others side n := by
    rw [scheduled, if_pos hk, hfound]
    rfl
  rw [given, if_pos ha, offers, hp]
  simp only [hsched, List.flatMap_cons, hlift]

/-- Where a name is reserved, there is a preferred side. -/
theorem Wired.exists_side (h : s.Wired root) (hn : root ≤ n) (hp : p.preferred? = some side)
    {x : NodeId} (hx : .preferred x ∈ s.given p n) :
    ∃ m ∈ s.children n, (s.node m).side? = some side ∧ s.given p n =
      s.liftedOffers true m ++ (s.others side n).flatMap (s.compressedOffers p side n) := by
  have ha : s.admits p n = true := by
    by_contra ha
    rw [given, if_neg ha] at hx
    cases hx
  have hsched := hx
  rw [given, if_pos ha, offers, hp] at hsched
  simp only [scheduled, List.flatMap_append, List.mem_append] at hsched
  obtain ⟨m, hm, hx⟩ := List.mem_flatMap.1 (hsched.resolve_right (not_preferred_others x))
  split at hm
  · rename_i hk
    have hm : m ∈ s.children n :=
      Entries.mem_values_of_mem (Entries.mem_of_get? (Option.mem_toList.1 hm))
    obtain ⟨_, -, ⟨hs, -⟩ | ⟨-, e⟩⟩ :=
      side_of_compressedOffers hx (fun _ e => by cases e) (fun _ e => by cases e)
    · have ham : s.admits p m = true := by
        by_contra ham
        rw [compressedOffers, if_neg ham] at hx
        cases hx
      exact ⟨m, hm, hs, h.given_eq hn hp hk ha hm hs ham⟩
    · cases e
  · cases hm

/-! ## The run -/

/-- What is collected for `n` after `k` offers. -/
def collected (s : Schema) (p : Policy) (n : NodeId) (k : Nat) : Collector :=
  ((s.given p n).take k).foldl (Collector.take s) .empty

theorem collected_children (p : Policy) (n : NodeId) (k : Nat) (key : Name) :
    (s.collected p n k).children.get? key =
      (((s.given p n).take k).filterMap Offer.candidate?).find? fun x => (s.node x).name = key := by
  rw [collected, Collector.foldl_take_children Collector.sound_empty, get?_foldl_keep]
  rfl

/-- What a reserved name stands for: the first member of the preferred side that has it, then and
at all later steps. -/
theorem Wired.exists_won (h : s.Wired root) (hn : root ≤ n) (hp : p.preferred? = some side)
    {k : Nat} {name : Name} (hr : name ∈ (s.collected p n k).reserved) :
    ∃ m ∈ s.children n, (s.node m).side? = some side ∧
      ∃ x, (s.members m).find? (fun x => (s.node x).name = name) = some x ∧
        ∀ j, k ≤ j → (s.collected p n j).children.get? name = some x := by
  obtain ⟨y, hy, rfl⟩ := mem_reservedNames_iff.1
    ((Collector.mem_reserved_foldl_take.1 hr).resolve_left List.not_mem_nil)
  obtain ⟨m, hm, hs, hgiven⟩ := h.exists_side hn hp (List.mem_of_mem_take hy)
  -- the part of the preferred side that has been offered is part of all that is considered here
  have hpre : (s.liftedOffers true m).take k <+: (s.given p n).take k := by
    rw [hgiven, List.take_append]
    exact List.prefix_append ..
  have hlift : .preferred y ∈ (s.liftedOffers true m).take k := by
    rw [hgiven, List.take_append] at hy
    exact (List.mem_append.1 hy).resolve_right fun hy =>
      not_preferred_others y (List.mem_of_mem_take hy)
  have hfound : (((s.liftedOffers true m).take k).filterMap Offer.candidate?).find?
      (fun x => (s.node x).name = (s.node y).name) |>.isSome := by
    rw [List.find?_isSome]
    exact ⟨y, List.mem_filterMap.2 ⟨_, hlift, rfl⟩, decide_eq_true rfl⟩
  obtain ⟨x, hx⟩ := Option.isSome_iff_exists.1 hfound
  have hlater : ∀ {offers : List Offer}, (s.liftedOffers true m).take k <+: offers →
      (offers.filterMap Offer.candidate?).find? (fun x => (s.node x).name = (s.node y).name) =
        some x := fun hoffers => (hoffers.filterMap _).find?_eq_some hx
  refine ⟨m, hm, hs, x, ?_, fun j hj => ?_⟩
  · rw [← candidates_liftedOffers true m]
    exact hlater (List.take_prefix ..)
  · rw [collected_children]
    exact hlater (hpre.trans (List.take_prefix_take_left hj))

/-- Once the preferred side has offered, the names of all its members are reserved. -/
theorem Wired.mem_reserved (h : s.Wired root) (hn : root ≤ n) (hp : p.preferred? = some side)
    (hk : (s.node n).kind.isEntity = true) (ha : s.admits p n = true) (hm : m ∈ s.children n)
    (hs : (s.node m).side? = some side) (ham : s.admits p m = true) {x : NodeId}
    (hx : x ∈ s.members m) {k : Nat} (hle : (s.liftedOffers true m).length ≤ k) :
    (s.node x).name ∈ (s.collected p n k).reserved := by
  obtain ⟨c, hc, hx⟩ := List.mem_flatMap.1 hx
  have hlift : .preferred x ∈ s.liftedOffers true m :=
    List.mem_flatMap.2 ⟨c, hc, List.mem_append_right _ (List.mem_map_of_mem hx)⟩
  refine Collector.mem_reserved_foldl_take.2 (.inr (mem_reservedNames_iff.2 ⟨x, ?_, rfl⟩))
  rw [h.given_eq hn hp hk ha hm hs ham, List.take_append, List.take_of_length_le hle]
  exact List.mem_append_left _ hlift

theorem collected_succ {k : Nat} {o : Offer} (ho : (s.given p n)[k]? = some o) :
    s.collected p n (k + 1) = (s.collected p n k).take s o := by
  rw [collected, List.take_add_one, ho, List.foldl_append]
  rfl

/-- How the steps of resolving `n` reserve names for the preferred side. -/
structure Reservation (s : Schema) (p : Policy) (side : Side) (n : NodeId) : Prop where
  /-- A reserved name stands for the first member of the preferred side that has it, at this step
  and at all later ones. -/
  won : ∀ k, ∀ name ∈ (s.collected p n k).reserved,
    ∃ m ∈ s.children n, (s.node m).side? = some side ∧
      ∃ x, (s.members m).find? (fun x => (s.node x).name = name) = some x ∧
        ∀ j, k ≤ j → (s.collected p n j).children.get? name = some x
  /-- A container or list reserves the names of all members of the side, unless it is left out. -/
  all : (s.node n).kind.isEntity = true → s.admits p n = true →
    ∀ m ∈ s.children n, (s.node m).side? = some side → s.admits p m = true →
      ∀ x ∈ s.members m, ∀ k, (s.liftedOffers true m).length ≤ k →
        (s.node x).name ∈ (s.collected p n k).reserved
  /-- Each step makes the insertions that its offer asks for. -/
  step : ∀ k o, (s.given p n)[k]? = some o →
    s.collected p n (k + 1) = (s.collected p n k).takeWith s .tolerant o
  /-- None of these has to tolerate a name. -/
  untolerated : ∀ k o, (s.given p n)[k]? = some o →
    ∀ r ∈ (s.collected p n k).requests s .tolerant o, r.guard = .tolerant →
      ¬(r.name ∈ r.whitelist ∧ (s.collected p n k).children.has r.name = true)
  /-- So all is the same with a strict guard. -/
  strict : ∀ k,
    ((s.given p n).take k).foldl (Collector.takeWith s .strict) .empty = s.collected p n k
  last : (s.collected p n (s.given p n).length).childSet = s.resolve p n

theorem IsBuilt.reservation (hb : s.IsBuilt root) (hn : n ∈ s.subtree root)
    (hp : p.preferred? = some side) : s.Reservation p side n where
  won _ _ hr := hb.wired.exists_won (hb.range_of_mem_subtree hn).1 hp hr
  all hk ha _ hm hs ham _ hx _ hle :=
    hb.wired.mem_reserved (hb.range_of_mem_subtree hn).1 hp hk ha hm hs ham hx hle
  step _ _ ho := collected_succ ho
  untolerated _ _ _ _ hr hg hw := Collector.not_mem_whitelist_of_tolerant hr hg hw.1
  strict k := by
    have htake : Collector.takeWith s .strict = Collector.take s :=
      funext fun _ => funext fun o => Collector.takeWith_eq_take .strict o
    rw [htake, collected]
  last := by rw [collected, List.take_length, resolve_eq_ofOffers, ChildSet.ofOffers]

/-- A lane whose preferred side has one name twice, and shares it with the other side. -/
def laneDescription : Value :=
  .map [("children", .map [
    ("state", .map [("config", .bool false),
      ("children", .map [("rate", .map []), ("up", .map [])])]),
    ("config", .map [("children", .map [("mode", .map [("kind", .str "choice"),
      ("children", .map [
        ("fixed", .map [("kind", .str "case"), ("children", .map [("rate", .map [])])]),
        ("free", .map [("kind", .str "case"), ("children", .map [("rate", .map []),
          ("burst", .map [])])])])])])])])]

def laneSchema : Schema :=
  ((empty.build laneDescription (some "lane") none).toOption).getD empty

theorem laneSchema_isBuilt : laneSchema.IsBuilt 0 :=
  ⟨empty, laneDescription, some "lane", none, nofun, rfl, rfl⟩

theorem reservation_laneSchema :
    laneSchema.IsBuilt 0 ∧ 0 ∈ laneSchema.subtree 0 ∧
      Policy.compressedPreferConfig.preferred? = some .config ∧
      laneSchema.given .compressedPreferConfig 0 =
        [.preferred 7, .preferred 9, .preferred 10, .deferred 2, .deferred 3] ∧
      (laneSchema.collected .compressedPreferConfig 0 3).reserved =
        [some "burst", some "rate", some "rate"] ∧
      laneSchema.Reservation .compressedPreferConfig .config 0 := by
  have hn : 0 ∈ laneSchema.subtree 0 := by decide
  exact ⟨laneSchema_isBuilt, hn, rfl, by decide, by decide, laneSchema_isBuilt.reservation hn rfl⟩

/-- The name stays with the first of its nodes, and the second one is on record. -/
example : (laneSchema.resolve .compressedPreferConfig 0) =
    ⟨[(some "rate", 7), (some "burst", 10), (some "up", 3)],
      [⟨.duplicate, "/lane/config/mode/free/rate", some "rate"⟩]⟩ := by
  decide

end Schema

end DataTree
