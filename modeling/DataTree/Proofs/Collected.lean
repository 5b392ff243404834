import DataTree.Proofs.Candidates

/-!
# What is left of a list of offers

Guards and reserved names decide what is put on record, never which node is kept: the children of
a node are the first candidates under each name (`resolve_children_eq`).

* `s.firsts xs`: the first node of `xs` under each name, in order. Its laws go through look-ups
  (`get?_firsts`).
* `c.complaints s o`: what taking the offer `o` puts on record after `c`.
* `Collector.Sound`: only names that are taken are reserved; so no offer is lost by giving way.
-/

namespace DataTree

/-! ## Mappings without repeated keys -/

namespace Entries

variable {κ α : Type} [DecidableEq κ]

/-- Keeps what stands under the key, if anything does. -/
def addNew (m : Entries κ α) (key : κ) (a : α) : Entries κ α :=
  if m.has key then m else m ++ [(key, a)]

theorem addNew_of_mem {m : Entries κ α} {key : κ} (h : key ∈ m.keys) (a : α) :
    m.addNew key a = m :=
  if_pos (has_iff_mem_keys.2 h)

theorem addNew_of_not_mem {m : Entries κ α} {key : κ} (h : key ∉ m.keys) (a : α) :
    m.addNew key a = m ++ [(key, a)] :=
  if_neg fun e => h (has_iff_mem_keys.1 e)

theorem get?_addNew (m : Entries κ α) (key : κ) (a : α) (key' : κ) :
    (m.addNew key a).get? key' = (m.get? key').or (if key = key' then some a else none) := by
  by_cases h : key ∈ m.keys
  · rw [addNew_of_mem h]
    by_cases hk : key = key'
    · subst hk
      obtain ⟨b, hb⟩ := Option.isSome_iff_exists.1 (has_iff_mem_keys.2 h)
      rw [hb, Option.some_or]
    · rw [if_neg hk, Option.or_none]
  · rw [addNew_of_not_mem h, get?_append, get?_cons, get?_nil]

theorem nodup_keys_addNew {m : Entries κ α} (hn : m.keys.Nodup) (key : κ) (a : α) :
    (m.addNew key a).keys.Nodup := by
  by_cases h : key ∈ m.keys
  · rwa [addNew_of_mem h]
  · rw [addNew_of_not_mem h, keys, List.map_append, List.nodup_append]
    refine ⟨hn, List.nodup_singleton key, ?_⟩
    rintro k hk _ hk' rfl
    have hk' : k = key := List.mem_singleton.1 hk'
    exact h (hk' ▸ hk)

theorem insert_fst {m : Entries Name α} (name : Name) (path : String) (a : α) (guard : Guard)
    (whitelist : List Name) : (m.insert name path a guard whitelist).1 = m.addNew name a := by
  unfold insert addNew
  split <;> rfl

theorem insert_snd {m : Entries Name α} (name : Name) (path : String) (a : α) (guard : Guard)
    (whitelist : List Name) : (m.insert name path a guard whitelist).2 =
      if name ∈ m.keys ∧ guard.forgives whitelist name = false then some ⟨.duplicate, path, name⟩
      else none := by
  by_cases hm : name ∈ m.keys
  · rw [insert_of_has (has_iff_mem_keys.2 hm)]
    cases guard.forgives whitelist name <;> simp [hm]
  · have hn : m.has name = false := by
      rw [← Bool.not_eq_true, has_iff_mem_keys]
      exact hm
    rw [insert_of_not_has hn, if_neg fun h => hm h.1]

end Entries

namespace Schema

variable {s : Schema}

/-! ## First nodes of a name -/

def keep (s : Schema) (m : Entries Name NodeId) (x : NodeId) : Entries Name NodeId :=
  m.addNew (s.node x).name x

def firsts (s : Schema) (xs : List NodeId) : Entries Name NodeId :=
  xs.foldl s.keep []

theorem get?_foldl_keep (xs : List NodeId) (m : Entries Name NodeId) (key : Name) :
    (xs.foldl s.keep m).get? key =
      (m.get? key).or (xs.find? fun x => (s.node x).name = key) := by
  induction xs generalizing m with
  | nil => simp
  | cons x xs ih =>
    rw [List.foldl_cons, ih, keep, Entries.get?_addNew, Option.or_assoc, List.find?_cons]
    by_cases hk : (s.node x).name = key <;> simp [hk]

theorem get?_firsts (xs : List NodeId) (key : Name) :
    (s.firsts xs).get? key = xs.find? fun x => (s.node x).name = key := by
  rw [firsts, get?_foldl_keep, Entries.get?_nil, Option.none_or]

theorem nodup_keys_firsts (xs : List NodeId) : (s.firsts xs).keys.Nodup := by
  unfold firsts
  suffices ∀ m : Entries Name NodeId, m.keys.Nodup → (xs.foldl s.keep m).keys.Nodup from
    this [] List.nodup_nil
  induction xs with
  | nil => exact fun m hm => hm
  | cons x xs ih => exact fun m hm => ih _ (Entries.nodup_keys_addNew hm _ x)

theorem mem_firsts_iff {xs : List NodeId} {key : Name} {x : NodeId} :
    (key, x) ∈ s.firsts xs ↔ xs.find? (fun y => (s.node y).name = key) = some x := by
  rw [← get?_firsts]
  exact ⟨Entries.get?_of_mem (nodup_keys_firsts xs), Entries.mem_of_get?⟩

theorem mem_keys_foldl_keep {xs : List NodeId} {m : Entries Name NodeId} {key : Name} :
    key ∈ (xs.foldl s.keep m).keys ↔ key ∈ m.keys ∨ ∃ x ∈ xs, (s.node x).name = key := by
  rw [← Decidable.not_iff_not, ← Entries.get?_eq_none_iff, get?_foldl_keep, Option.or_eq_none_iff,
    List.find?_eq_none, Entries.get?_eq_none_iff]
  simp

theorem mem_keys_firsts_iff {xs : List NodeId} {key : Name} :
    key ∈ (s.firsts xs).keys ↔ ∃ x ∈ xs, (s.node x).name = key := by
  rw [firsts, mem_keys_foldl_keep]
  simp [Entries.keys]

theorem mem_of_mem_firsts {xs : List NodeId} {key : Name} {x : NodeId}
    (h : (key, x) ∈ s.firsts xs) : x ∈ xs ∧ (s.node x).name = key := by
  have hf := mem_firsts_iff.1 h
  exact ⟨List.mem_of_find?_eq_some hf, by simpa using List.find?_some hf⟩

end Schema

/-! ## One offer -/

namespace Collector

variable {s : Schema} {c : Collector} {o : Offer} {guard guard' : Guard} {x : NodeId}

/-- Reserved names are taken. -/
def Sound (c : Collector) : Prop :=
  ∀ name ∈ c.reserved, name ∈ c.children.keys

theorem sound_empty : empty.Sound :=
  fun _ h => nomatch h

def duplicate (s : Schema) (x : NodeId) : Defect :=
  ⟨.duplicate, (s.node x).path, (s.node x).name⟩

def nestedPair (s : Schema) (x : NodeId) : Defect :=
  ⟨.nestedPair, (s.node x).path, (s.node x).name⟩

/-- What an offer puts on record. -/
def complaints (s : Schema) (c : Collector) : Offer → List Defect
  | .nested x => [nestedPair s x]
  | .plain x | .preferred x =>
    if (s.node x).name ∈ c.children.keys then [duplicate s x] else []
  | .deferred x =>
    if (s.node x).name ∈ c.children.keys ∧ (s.node x).name ∉ c.reserved then [duplicate s x]
    else []

theorem takeWith_of_request (hr : c.requests s guard o = [c.request s x guard']) :
    c.takeWith s guard o = ⟨s.keep c.children x, c.defects ++ (o.note? s).toList ++
      (if (s.node x).name ∈ c.children.keys ∧ guard'.forgives c.reserved (s.node x).name = false
        then [duplicate s x] else []), (o.reserved? s).toList ++ c.reserved⟩ := by
  simp only [takeWith, hr, Entries.insertAll, request, Entries.insert_fst, Entries.insert_snd]
  split <;> rfl

theorem takeWith_of_no_request (hr : c.requests s guard o = []) :
    c.takeWith s guard o = ⟨c.children, c.defects ++ (o.note? s).toList,
      (o.reserved? s).toList ++ c.reserved⟩ := by
  simp only [takeWith, hr, Entries.insertAll, List.filterMap_nil, List.append_nil]

theorem requests_of_reserved (hr : (s.node x).name ∈ c.reserved) :
    c.requests s guard (.deferred x) = [] :=
  if_pos hr

theorem requests_of_not_reserved (hr : (s.node x).name ∉ c.reserved) :
    c.requests s guard (.deferred x) = [c.request s x guard] :=
  if_neg hr

theorem take_plain_children (c : Collector) (x : NodeId) :
    (c.take s (.plain x)).children = s.keep c.children x := by
  rw [take, takeWith_of_request rfl]

theorem take_children (hc : c.Sound) (o : Offer) :
    (c.take s o).children = o.candidate?.toList.foldl s.keep c.children := by
  cases o with
  | plain x => exact take_plain_children c x
  | preferred x => exact take_plain_children c x
  | nested x => rfl
  | deferred x =>
    by_cases hr : (s.node x).name ∈ c.reserved
    · rw [take, takeWith_of_no_request (requests_of_reserved hr)]
      exact (Entries.addNew_of_mem (hc _ hr) x).symm
    · rw [take, takeWith_of_request (requests_of_not_reserved hr)]
      rfl

theorem take_defects (o : Offer) :
    (c.take s o).defects = c.defects ++ c.complaints s o := by
  cases o with
  | plain x | preferred x =>
    rw [take, takeWith_of_request rfl]
    simp [Offer.note?, complaints, Guard.forgives]
  | nested x => exact List.append_nil _
  | deferred x =>
    by_cases hr : (s.node x).name ∈ c.reserved
    · rw [take, takeWith_of_no_request (requests_of_reserved hr)]
      simp [Offer.note?, complaints, hr]
    · rw [take, takeWith_of_request (requests_of_not_reserved hr)]
      simp [Offer.note?, complaints, hr, Guard.forgives]

theorem take_reserved (o : Offer) :
    (c.take s o).reserved = (o.reserved? s).toList ++ c.reserved := rfl

theorem Sound.take (hc : c.Sound) (o : Offer) : (c.take s o).Sound := by
  intro name hn
  rw [take_children hc, Schema.mem_keys_foldl_keep]
  rw [take_reserved] at hn
  rcases List.mem_append.1 hn with hn | hn
  · cases o with
    | preferred x => exact .inr ⟨x, List.mem_singleton_self x, (List.mem_singleton.1 hn).symm⟩
    | _ => cases hn
  · exact .inl (hc _ hn)

/-! ## All offers -/

/-- Which nodes are kept does not depend on guards and reserved names. -/
theorem foldl_take_children (hc : c.Sound) (offers : List Offer) :
    (offers.foldl (Collector.take s) c).children =
      (offers.filterMap Offer.candidate?).foldl s.keep c.children := by
  induction offers generalizing c with
  | nil => rfl
  | cons o offers ih =>
    rw [List.foldl_cons, ih (hc.take o), take_children hc, List.filterMap_cons]
    cases o.candidate? <;> rfl

/-- What is on record stays there. -/
theorem defects_prefix_foldl_take (offers : List Offer) :
    c.defects <+: (offers.foldl (Collector.take s) c).defects := by
  induction offers generalizing c with
  | nil => exact List.prefix_rfl
  | cons o offers ih =>
    refine List.IsPrefix.trans ?_ ih
    rw [take_defects]
    exact List.prefix_append ..

end Collector

namespace Schema

variable {s : Schema}

theorem resolve_children_eq (p : Policy) (n : NodeId) :
    (s.resolve p n).children = if s.admits p n then s.firsts (s.candidates p n) else [] := by
  unfold resolve
  split
  · exact Collector.foldl_take_children Collector.sound_empty _
  · rfl

theorem nodup_keys_resolve (p : Policy) (n : NodeId) : (s.resolve p n).children.keys.Nodup := by
  rw [resolve_children_eq]
  split
  · exact nodup_keys_firsts _
  · exact List.nodup_nil

/-- A resolved child was offered and stands under its own name. -/
theorem mem_candidates_of_mem_resolve {p : Policy} {n x : NodeId} {key : Name}
    (h : (key, x) ∈ (s.resolve p n).children) :
    x ∈ s.candidates p n ∧ (s.node x).name = key := by
  rw [resolve_children_eq] at h
  split at h
  · exact mem_of_mem_firsts h
  · cases h

end Schema

end DataTree
