import DataTree.Proofs.Preferences
import Mathlib.Data.List.Induction

/-!
# Compressed resolution in closed form

With compression the children of a container or list can be read off one list, its line-up
(`s.lineup p side n`): the child of the preferred side's name shares what it has to offer first,
then the others do, and the other side leaves out the names that the preferred side claims. Of the
nodes in the line-up, the leader of each name is kept (`s.leads`), and any other one is a
duplicate; a note about a nested side is on record where it stands. There is nothing else to the
children or to the record (`IsBuilt.resolve_eq_closedForm`).

The proof goes by the offers: settling them, once all names are claimed, gives the line-up
(`Wired.settled_offers`) and changes nothing (`ChildSet.ofOffers_settled`).
-/

namespace DataTree

variable {s : Schema} {root n : Nat} {p : Policy} {side : Side}

/-! ## The line-up of a node -/

namespace Offer

/-- What is left of an offer when these names are claimed and it is settled who gives way. -/
def settled? (s : Schema) (claimed : List Name) : Offer → Option Offer
  | plain x | preferred x => some (plain x)
  | deferred x => if (s.node x).name ∈ claimed then none else some (plain x)
  | nested x => some (nested x)

def isFree (s : Schema) (claimed : List Name) : Offer → Bool
  | plain x => (s.node x).name ∉ claimed
  | _ => true

/-- Settled offers neither claim a name nor give way. -/
def IsSettled : Offer → Prop
  | plain _ | nested _ => True
  | _ => False

end Offer

namespace Schema

/-- The members of a side, or the nodes that they expose (`Wired.mem_frontier_iff`, in the order of
`Wired.frontier_eq`), each after a note if it is a side itself. -/
def lifted (s : Schema) (m : NodeId) : List Offer :=
  (s.children m).flatMap fun c =>
    (if (s.node c).side?.isSome then [.nested c] else []) ++ (s.frontier c).map .plain

/-- What child `m` of node `n` has to offer. A directory has its only child instead, if that is a
list (`soleList?_eq_some_iff`), and another wrapper has the nodes that it exposes. -/
def share (s : Schema) (p : Policy) (n m : NodeId) : List Offer :=
  if !s.admits p m then []
  else if (s.node m).side?.isSome then s.lifted m
  else match s.soleList? m with
    | some inner => if s.admits p inner then [.plain inner] else []
    | none =>
      if (s.node m).kind.isWrapper then (s.frontier m).map .plain
      else if (s.node n).kind = .list ∧ (s.node m).kind = .leafref then []
      else [.plain m]

/-- The names that the preferred side of node `n` has to offer. -/
def claimedNames (s : Schema) (p : Policy) (side : Side) (n : NodeId) : List Name :=
  (s.children n).flatMap fun m =>
    if (s.node m).side? = some side then s.names ((s.share p n m).filterMap Offer.candidate?)
    else []

def lineup (s : Schema) (p : Policy) (side : Side) (n : NodeId) : List Offer :=
  let named := (s.children n).filter fun m => (s.node m).name = some side.name
  let others := (s.children n).filter fun m => (s.node m).name ≠ some side.name
  (named ++ others).flatMap fun m =>
    if (s.node m).side? = some side.other then
      (s.share p n m).filter (Offer.isFree s (s.claimedNames p side n))
    else s.share p n m

/-- The first node of its name among `xs`. -/
def leads (s : Schema) (xs : List NodeId) (x : NodeId) : Bool :=
  xs.find? (fun y => (s.node y).name = (s.node x).name) = some x

/-- What the line-up puts on record for one of its offers, `xs` being its nodes. -/
def remark (s : Schema) (xs : List NodeId) : Offer → List Defect
  | .nested x => [⟨.nestedPair, (s.node x).path, (s.node x).name⟩]
  | .plain x | .preferred x | .deferred x =>
    if s.leads xs x then [] else [⟨.duplicate, (s.node x).path, (s.node x).name⟩]

/-- The leaders of a line-up, and all that is to be said of the rest. -/
def judged (s : Schema) (offers : List Offer) : ChildSet :=
  let xs := offers.filterMap Offer.candidate?
  ⟨(xs.filter (s.leads xs)).map fun x => ((s.node x).name, x), offers.flatMap (s.remark xs)⟩

def closedForm (s : Schema) (p : Policy) (side : Side) (n : NodeId) : ChildSet :=
  if s.admits p n then s.judged (s.lineup p side n) else .empty

/-! ## Leaders -/

theorem leads_append_of_mem {xs : List NodeId} {x : NodeId} (hx : x ∈ xs) (ys : List NodeId) :
    s.leads (xs ++ ys) x = s.leads xs x := by
  have hsome : (xs.find? fun y => (s.node y).name = (s.node x).name).isSome = true :=
    List.find?_isSome.2 ⟨x, hx, by simp⟩
  obtain ⟨y, hy⟩ := Option.isSome_iff_exists.1 hsome
  rw [leads, leads, List.find?_append, hy, Option.some_or]

/-- The last node leads if its name is new. -/
theorem leads_append_self {xs : List NodeId} {x : NodeId} (hx : x ∉ xs) :
    s.leads (xs ++ [x]) x = true ↔ (s.node x).name ∉ s.names xs := by
  rw [leads, decide_eq_true_iff, List.find?_append, Option.or_eq_some_iff, names, List.mem_map]
  constructor
  · rintro (hf | ⟨hf, -⟩)
    · exact (hx (List.mem_of_find?_eq_some hf)).elim
    · rintro ⟨y, hy, hname⟩
      simpa [hname] using List.find?_eq_none.1 hf y hy
  · intro hnew
    refine .inr ⟨List.find?_eq_none.2 fun y hy hname => ?_, by simp⟩
    exact hnew ⟨y, hy, of_decide_eq_true hname⟩

theorem filter_leads_append {xs : List NodeId} {x : NodeId} (hx : x ∉ xs) :
    (xs ++ [x]).filter (s.leads (xs ++ [x])) =
      xs.filter (s.leads xs) ++ if (s.node x).name ∈ s.names xs then [] else [x] := by
  have hold : xs.filter (s.leads (xs ++ [x])) = xs.filter (s.leads xs) :=
    List.filter_congr fun y hy => leads_append_of_mem hy [x]
  rw [List.filter_append, hold, List.filter_cons, List.filter_nil]
  by_cases hnew : (s.node x).name ∈ s.names xs
  · rw [if_neg fun hl => (leads_append_self hx).1 hl hnew, if_pos hnew]
  · rw [if_pos ((leads_append_self hx).2 hnew), if_neg hnew]

/-- The nodes that are kept are the leaders. -/
theorem firsts_eq_leaders {xs : List NodeId} (hn : xs.Nodup) :
    s.firsts xs = (xs.filter (s.leads xs)).map fun x => ((s.node x).name, x) := by
  induction xs using List.reverseRecOn with
  | nil => rfl
  | append_singleton xs x ih =>
    obtain ⟨hn, -, hdisj⟩ := List.nodup_append.1 hn
    have hx : x ∉ xs := fun hx => hdisj x hx x (List.mem_singleton_self x) rfl
    have hkey : (s.node x).name ∈ (s.firsts xs).keys ↔ (s.node x).name ∈ s.names xs := by
      rw [mem_keys_firsts_iff, names, List.mem_map]
    have hlast : s.firsts (xs ++ [x]) = s.keep (s.firsts xs) x := List.foldl_append
    rw [hlast, filter_leads_append hx, List.map_append, ← ih hn, keep]
    by_cases hnew : (s.node x).name ∈ s.names xs
    · rw [Entries.addNew_of_mem (hkey.2 hnew), if_pos hnew]
      exact (List.append_nil _).symm
    · rw [Entries.addNew_of_not_mem (mt hkey.1 hnew), if_neg hnew]
      rfl

end Schema

/-! ## Settled offers -/

namespace Collector

variable {c c' : Collector}

/-- At its turn, an offer does what is left of it when all names are claimed. -/
theorem take_settled (hc : c.Sound) (o : Offer) (hch : c'.children = c.children)
    (hd : c'.defects = c.defects) :
    ((o.settled? s c.reserved).toList.foldl (Collector.take s) c').children =
        (c.take s o).children ∧
      ((o.settled? s c.reserved).toList.foldl (Collector.take s) c').defects =
        (c.take s o).defects := by
  have hplain : ∀ x, (c'.take s (.plain x)).children = s.keep c.children x ∧
      (c'.take s (.plain x)).defects = c.defects ++
        if (s.node x).name ∈ c.children.keys then [duplicate s x] else [] := fun x => by
    rw [take_defects, hd, complaints, hch]
    exact ⟨hch ▸ take_plain_children c' x, rfl⟩
  cases o with
  | plain x | preferred x =>
    refine ⟨(hplain x).1.trans (take_plain_children c x).symm, (hplain x).2.trans ?_⟩
    rw [take_defects, complaints]
  | deferred x =>
    rw [take_children hc, take_defects, Offer.settled?, complaints]
    by_cases hr : (s.node x).name ∈ c.reserved
    · rw [if_pos hr, if_neg fun h => h.2 hr, List.append_nil]
      exact ⟨hch.trans (Entries.addNew_of_mem (hc _ hr) x).symm, hd⟩
    · rw [if_neg hr]
      refine ⟨(hplain x).1, (hplain x).2.trans ?_⟩
      simp only [hr, not_false_eq_true, and_true]
  | nested x =>
    refine ⟨hch, ?_⟩
    rw [take_defects, ← hd]
    exact take_defects (c := c') (.nested x)

theorem settled?_of_inTurn {o : Offer} {offers : List Offer} {claimed : List Name}
    (ht : ∀ o' ∈ offers, o.InTurn o')
    (hr : ∀ name, name ∈ claimed ↔ name ∈ c.reserved ∨ name ∈ s.reservedNames (o :: offers)) :
    o.settled? s claimed = o.settled? s c.reserved := by
  cases o with
  | deferred x =>
    simp only [Offer.settled?, hr, reservedNames_of_inTurn ht, List.not_mem_nil, or_false]
  | _ => rfl

/-- Taking the offers of sides in turn, or what is left of them, is the same. -/
theorem foldl_take_settled (hc : c.Sound) (hch : c'.children = c.children)
    (hd : c'.defects = c.defects) {offers : List Offer} (ht : offers.Pairwise Offer.InTurn)
    {claimed : List Name}
    (hr : ∀ name, name ∈ claimed ↔ name ∈ c.reserved ∨ name ∈ s.reservedNames offers) :
    ((offers.filterMap (Offer.settled? s claimed)).foldl (Collector.take s) c').childSet =
      (offers.foldl (Collector.take s) c).childSet := by
  induction offers generalizing c c' with
  | nil => rw [childSet, childSet, List.filterMap_nil, List.foldl_nil, List.foldl_nil, hch, hd]
  | cons o offers ih =>
    obtain ⟨hto, ht⟩ := List.pairwise_cons.1 ht
    have hstep := take_settled (s := s) hc o hch hd
    have hcons : (o :: offers).filterMap (Offer.settled? s claimed) =
        (o.settled? s c.reserved).toList ++ offers.filterMap (Offer.settled? s claimed) := by
      rw [List.filterMap_cons, settled?_of_inTurn hto hr]
      cases o.settled? s c.reserved <;> rfl
    rw [hcons, List.foldl_append, List.foldl_cons]
    exact ih (hc.take o) hstep.1 hstep.2 ht (mem_reserved_take_iff hr)

end Collector

namespace ChildSet

/-- Offers in turn may be settled beforehand. -/
theorem ofOffers_settled {offers : List Offer} (ht : offers.Pairwise Offer.InTurn)
    {claimed : List Name} (hr : ∀ name, name ∈ claimed ↔ name ∈ s.reservedNames offers) :
    ofOffers s (offers.filterMap (Offer.settled? s claimed)) = ofOffers s offers := by
  refine Collector.foldl_take_settled Collector.sound_empty rfl rfl ht fun name => ?_
  simp [hr, Collector.empty]

theorem children_ofOffers (offers : List Offer) :
    (ofOffers s offers).children = s.firsts (offers.filterMap Offer.candidate?) :=
  Collector.foldl_take_children Collector.sound_empty offers

/-- A settled offer that comes last puts on record what is to be remarked about it. -/
theorem complaints_of_settled {offers : List Offer} {o : Offer} (ho : o.IsSettled)
    (hn : ((offers ++ [o]).filterMap Offer.candidate?).Nodup) :
    (offers.foldl (Collector.take s) .empty).complaints s o =
      s.remark ((offers ++ [o]).filterMap Offer.candidate?) o := by
  rw [List.filterMap_append] at hn ⊢
  cases o with
  | nested x => rfl
  | plain x =>
    have hx : x ∉ offers.filterMap Offer.candidate? := fun hx =>
      (List.nodup_append.1 hn).2.2 x hx x (List.mem_singleton_self x) rfl
    have hleads := Schema.leads_append_self (s := s) hx
    have htaken : (s.node x).name ∈ (offers.foldl (Collector.take s) .empty).children.keys ↔
        (s.node x).name ∈ s.names (offers.filterMap Offer.candidate?) := by
      rw [Collector.foldl_take_children Collector.sound_empty, Schema.names, List.mem_map]
      exact Schema.mem_keys_firsts_iff
    rw [Collector.complaints]
    by_cases hname : (s.node x).name ∈ s.names (offers.filterMap Offer.candidate?)
    · rw [if_pos (htaken.2 hname)]
      exact (if_neg fun hl => hleads.1 hl hname).symm
    · rw [if_neg (mt htaken.1 hname)]
      exact (if_pos (hleads.2 hname)).symm
  | preferred x | deferred x => exact ho.elim

theorem defects_ofOffers_settled {offers : List Offer} (hs : ∀ o ∈ offers, o.IsSettled)
    (hn : (offers.filterMap Offer.candidate?).Nodup) : (ofOffers s offers).defects =
      offers.flatMap (s.remark (offers.filterMap Offer.candidate?)) := by
  induction offers using List.reverseRecOn with
  | nil => rfl
  | append_singleton offers o ih =>
    have hlast : (ofOffers s (offers ++ [o])).defects = (ofOffers s offers).defects ++
        (offers.foldl (Collector.take s) .empty).complaints s o := by
      rw [ofOffers, List.foldl_append]
      exact Collector.take_defects o
    -- what comes last changes nothing about the offers before
    have hold : ∀ o' ∈ offers, s.remark ((offers ++ [o]).filterMap Offer.candidate?) o' =
        s.remark (offers.filterMap Offer.candidate?) o' := fun o' ho' => by
      rw [List.filterMap_append]
      cases o' with
      | nested x => rfl
      | _ x =>
        have hx : x ∈ offers.filterMap Offer.candidate? := List.mem_filterMap.2 ⟨_, ho', rfl⟩
        simp only [Schema.remark, Schema.leads_append_of_mem hx]
    have hn' : (offers.filterMap Offer.candidate?).Nodup := by
      rw [List.filterMap_append] at hn
      exact (List.nodup_append.1 hn).1
    rw [hlast, ih (fun o' ho' => hs o' (List.mem_append_left _ ho')) hn',
      complaints_of_settled (hs o (List.mem_append_right _ (List.mem_singleton_self o))) hn,
      List.flatMap_append, List.flatMap_congr hold, List.flatMap_singleton]

/-- Of settled offers the leaders are kept, and the others on record. -/
theorem ofOffers_eq_judged {offers : List Offer} (hs : ∀ o ∈ offers, o.IsSettled)
    (hn : (offers.filterMap Offer.candidate?).Nodup) : ofOffers s offers = s.judged offers := by
  rw [Schema.judged, ← Schema.firsts_eq_leaders hn, ← defects_ofOffers_settled hs hn,
    ← children_ofOffers]

end ChildSet

/-! ## The offers of the children -/

namespace Offer

theorem isSettled_of_settled? {claimed : List Name} {o o' : Offer}
    (h : o.settled? s claimed = some o') : o'.IsSettled := by
  cases o with
  | deferred x =>
    rw [settled?] at h
    split at h
    · cases h
    · cases h
      trivial
  | _ x =>
    cases h
    trivial

/-- Settling leaves some of the candidates. -/
theorem candidates_settled_sublist (claimed : List Name) (offers : List Offer) :
    List.Sublist ((offers.filterMap (settled? s claimed)).filterMap candidate?)
      (offers.filterMap candidate?) := by
  induction offers with
  | nil => exact .slnil
  | cons o offers ih =>
    cases o with
    | nested x => exact ih
    | plain x | preferred x => exact ih.cons_cons x
    | deferred x =>
      rw [List.filterMap_cons, settled?]
      by_cases hx : (s.node x).name ∈ claimed
      · rw [if_pos hx]
        exact ih.cons x
      · rw [if_neg hx]
        exact ih.cons_cons x

end Offer

namespace Schema

theorem settled_plainOffers (claimed : List Name) (m : NodeId) :
    (s.plainOffers m).filterMap (Offer.settled? s claimed) = (s.frontier m).map .plain := by
  rw [plainOffers, List.filterMap_map]
  exact congrFun (List.filterMap_eq_map (f := Offer.plain)) _

/-- A reading of a side's offers goes by its children. -/
theorem filterMap_liftedOffers {β : Type} (read : Offer → Option β) (preferred : Bool)
    (m : NodeId) : (s.liftedOffers preferred m).filterMap read =
      (s.children m).flatMap fun c =>
        (if (s.node c).side?.isSome then (read (.nested c)).toList else []) ++
          (s.frontier c).filterMap fun x =>
            read (if preferred then .preferred x else .deferred x) := by
  rw [liftedOffers, List.filterMap_flatMap]
  refine List.flatMap_congr fun c _ => ?_
  rw [List.filterMap_append, List.filterMap_map]
  congr 1
  · split
    · rw [List.filterMap_cons]
      cases read (.nested c) <;> rfl
    · rfl
  · cases preferred <;> rfl

/-- What is left of a side's offers: all of the preferred side, and what is free of the other. -/
theorem settled_liftedOffers (claimed : List Name) (preferred : Bool) (m : NodeId) :
    (s.liftedOffers preferred m).filterMap (Offer.settled? s claimed) =
      if preferred then s.lifted m else (s.lifted m).filter (Offer.isFree s claimed) := by
  rw [filterMap_liftedOffers]
  cases preferred with
  | true =>
    refine List.flatMap_congr fun c _ => ?_
    exact congrArg _ (congrFun (List.filterMap_eq_map (f := Offer.plain)) _)
  | false =>
    rw [if_neg Bool.false_ne_true, lifted, List.filter_flatMap]
    refine List.flatMap_congr fun c _ => ?_
    rw [List.filter_append, List.filter_map, ← List.filterMap_eq_map, List.filterMap_filter]
    congr 1
    · split <;> rfl
    · refine List.filterMap_congr fun x _ => ?_
      by_cases hx : (s.node x).name ∈ claimed <;>
        simp [Offer.settled?, Offer.isFree, hx]

theorem candidates_lifted (m : NodeId) :
    (s.lifted m).filterMap Offer.candidate? = s.members m := by
  have hsettled := settled_liftedOffers (s := s) [] true m
  rw [if_pos rfl] at hsettled
  rw [← hsettled, List.filterMap_filterMap, ← candidates_liftedOffers true m]
  refine List.filterMap_congr fun o _ => ?_
  cases o <;> rfl

theorem reservedNames_liftedOffers (preferred : Bool) (m : NodeId) :
    s.reservedNames (s.liftedOffers preferred m) =
      if preferred then s.names (s.members m) else [] := by
  have hnote : ∀ c, (if (s.node c).side?.isSome then
      (Offer.reserved? s (.nested c)).toList else []) = [] := fun _ => ite_self _
  rw [reservedNames, filterMap_liftedOffers]
  cases preferred with
  | true =>
    rw [if_pos rfl, names, members, List.map_flatMap]
    refine List.flatMap_congr fun c _ => ?_
    rw [hnote, List.nil_append]
    exact congrFun (List.filterMap_eq_map (f := fun x => (s.node x).name)) _
  | false =>
    rw [if_neg Bool.false_ne_true]
    refine List.flatMap_eq_nil_iff.2 fun c _ => ?_
    rw [hnote, List.nil_append]
    exact List.filterMap_eq_nil_iff.2 fun x _ => rfl

namespace Wired

variable {m : Nat}

/-- A child that the policy keeps where it is stands for itself or, as a wrapper, for others. -/
theorem settled_keptOffers (h : s.Wired root) (hn : root ≤ n) (hm : m ∈ s.children n)
    (claimed : List Name) :
    (if s.isKeyReference n m then [] else s.plainOffers m).filterMap
        (Offer.settled? s claimed) =
      if (s.node m).kind.isWrapper then (s.frontier m).map .plain
      else if (s.node n).kind = .list ∧ (s.node m).kind = .leafref then []
      else [.plain m] := by
  cases hwrap : (s.node m).kind.isWrapper with
  | true =>
    have hkey : s.isKeyReference n m = false := by
      refine decide_eq_false fun hkey => ?_
      rw [hkey.2] at hwrap
      cases hwrap
    rw [hkey, if_neg Bool.false_ne_true, if_pos rfl, settled_plainOffers]
  | false =>
    rw [if_neg Bool.false_ne_true]
    by_cases hkey : (s.node n).kind = .list ∧ (s.node m).kind = .leafref
    · rw [isKeyReference, decide_eq_true hkey, if_pos rfl, if_pos hkey]
      rfl
    · rw [isKeyReference, decide_eq_false hkey, if_neg Bool.false_ne_true, if_neg hkey,
        settled_plainOffers,
        h.frontier_of_data (h.root_le_child hn hm) (h.child_lt_size hn hm) hwrap]
      rfl

/-- What is left of the offers of child `m`. -/
theorem settled_compressedOffers (h : s.Wired root) (hn : root ≤ n) (hm : m ∈ s.children n)
    (claimed : List Name) :
    (s.compressedOffers p side n m).filterMap (Offer.settled? s claimed) =
      if (s.node m).side? = some side.other then
        (s.share p n m).filter (Offer.isFree s claimed) else s.share p n m := by
  have hother : side.other ≠ side := by cases side <;> nofun
  unfold compressedOffers share
  cases s.admits p m with
  | false => simp
  | true =>
    cases (s.node m).side? with
    | some own =>
      simp only [if_true, settled_liftedOffers, Option.some.injEq, Option.isSome_some,
        Bool.not_true, Bool.false_eq_true, if_false]
      by_cases e : own = side
      · simp [e, hother.symm]
      · simp [Side.eq_other_of_ne e, hother]
    | none =>
      simp only [if_true, Bool.not_true, Bool.false_eq_true, if_false, Option.isSome_none,
        reduceCtorEq]
      cases s.soleList? m with
      | some inner =>
        simp only
        split <;> rfl
      | none => exact h.settled_keptOffers hn hm claimed

/-- Only the preferred side reserves names, those that it has to offer. -/
theorem reservedNames_compressedOffers (n m : NodeId) :
    s.reservedNames (s.compressedOffers p side n m) =
      if (s.node m).side? = some side then
        s.names ((s.share p n m).filterMap Offer.candidate?) else [] := by
  split
  · rename_i hs
    rw [compressedOffers, share, hs]
    cases s.admits p m with
    | false => rfl
    | true => simp [reservedNames_liftedOffers, candidates_lifted]
  · rename_i hs
    refine List.filterMap_eq_nil_iff.2 fun o ho => ?_
    cases o with
    | preferred x =>
      obtain ⟨y, -, ⟨hs', -⟩ | ⟨-, e⟩⟩ := side_of_compressedOffers ho (by simp) (by simp)
      · exact (hs hs').elim
      · cases e
    | _ => rfl

theorem mem_claimedNames_iff (h : s.Wired root) (hn : root ≤ n)
    (hk : (s.node n).kind.isEntity = true) (hp : p.preferred? = some side) (name : Name) :
    name ∈ s.claimedNames p side n ↔ name ∈ s.reservedNames (s.offers p n) := by
  have hperm := h.considered_perm (p := p) hn fun _ => hk
  simp only [considered, hp] at hperm
  have hread : s.reservedNames (s.offers p n) = (s.scheduled side n).flatMap fun m =>
      s.reservedNames (s.compressedOffers p side n m) := by
    simp only [offers, hp]
    exact List.filterMap_flatMap ..
  rw [hread, claimedNames, ← List.flatMap_congr fun m _ => reservedNames_compressedOffers n m]
  exact (hperm.flatMap_right _).mem_iff.symm

/-- What is left of the offers to a container or list is its line-up. -/
theorem settled_offers (h : s.Wired root) (hn : root ≤ n)
    (hk : (s.node n).kind.isEntity = true) (hp : p.preferred? = some side) :
    (s.offers p n).filterMap (Offer.settled? s (s.claimedNames p side n)) =
      s.lineup p side n := by
  simp only [offers, hp, h.scheduled_eq hn, hk, if_true]
  rw [List.filterMap_flatMap, lineup]
  refine List.flatMap_congr fun m hm => h.settled_compressedOffers hn ?_ _
  rcases List.mem_append.1 hm with hm | hm <;> exact (List.mem_filter.1 hm).1

end Wired

/-- Under a compressing policy the children and the record of a container or list are those of its
line-up. -/
theorem IsBuilt.resolve_eq_closedForm (h : s.IsBuilt root) (hn : n ∈ s.subtree root)
    (hk : (s.node n).kind.isEntity = true) (hp : p.preferred? = some side) :
    s.resolve p n = s.closedForm p side n := by
  have hw := h.wired
  obtain ⟨hrn, -⟩ := h.range_of_mem_subtree hn
  have hsettled := hw.settled_offers hrn hk hp
  have hs : ∀ o ∈ s.lineup p side n, o.IsSettled := fun o ho => by
    rw [← hsettled] at ho
    obtain ⟨o', -, ho'⟩ := List.mem_filterMap.1 ho
    exact Offer.isSettled_of_settled? ho'
  have hnodup : ((s.lineup p side n).filterMap Offer.candidate?).Nodup := by
    rw [← hsettled]
    exact (hw.nodup_candidates p hrn).sublist (Offer.candidates_settled_sublist _ _)
  have hoffers : ChildSet.ofOffers s (s.offers p n) = s.judged (s.lineup p side n) := by
    rw [← ChildSet.ofOffers_eq_judged hs hnodup, ← hsettled]
    exact (ChildSet.ofOffers_settled (hw.inTurn_offers p hrn)
      (hw.mem_claimedNames_iff hrn hk hp)).symm
  rw [resolve, closedForm, hoffers]

/-- A trunk with a key, sides that share a name, a side inside a side, and a list in a container of
its own. -/
def trunkDescription : Value :=
  .map [("kind", .str "list"), ("children", .map [
    ("id", .map [("type", .str "leafref")]),
    ("mtu", .map []),
    ("state", .map [("config", .bool false), ("children", .map [("id", .map []),
      ("config", .map [("children", .map [("up", .map [])])])])]),
    ("members", .map [("children", .map [("member", .map [("kind", .str "list")])])]),
    ("config", .map [("children", .map [("id", .map []), ("mtu", .map [])])])])]

def trunkSchema : Schema :=
  ((empty.build trunkDescription (some "trunk") none).toOption).getD empty

theorem trunkSchema_isBuilt : trunkSchema.IsBuilt 0 :=
  ⟨empty, trunkDescription, some "trunk", none, nofun, rfl, rfl⟩

theorem resolve_eq_closedForm_trunkSchema :
    trunkSchema.IsBuilt 0 ∧ 0 ∈ trunkSchema.subtree 0 ∧
      (trunkSchema.node 0).kind.isEntity = true ∧
      Policy.compressedPreferConfig.preferred? = some .config ∧
      trunkSchema.resolve .compressedPreferConfig 0 =
        trunkSchema.closedForm .compressedPreferConfig .config 0 := by
  have hn : 0 ∈ trunkSchema.subtree 0 := by decide
  have hk : (trunkSchema.node 0).kind.isEntity = true := by decide
  exact ⟨trunkSchema_isBuilt, hn, hk, rfl, trunkSchema_isBuilt.resolve_eq_closedForm hn hk rfl⟩

/-- The key is left out, the name claimed by the preferred side is not offered again, and the leaf
of a taken name is a duplicate. -/
example : trunkSchema.lineup .compressedPreferConfig .config 0 =
      [.plain 10, .plain 11, .plain 2, .nested 5, .plain 5, .plain 8] ∧
    trunkSchema.judged (trunkSchema.lineup .compressedPreferConfig .config 0) =
      ⟨[(some "id", 10), (some "mtu", 11), (some "config", 5), (some "member", 8)],
        [⟨.duplicate, "/trunk/mtu", some "mtu"⟩,
          ⟨.nestedPair, "/trunk/state/config", some "config"⟩]⟩ := by
  decide

end Schema

end DataTree
