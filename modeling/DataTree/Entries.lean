/-!
# Ordered mappings

A mapping from keys that remembers the order of insertion, as the list of its pairs. Where a key
stands twice, the first pair counts; `ofList` and `put` make mappings without such pairs.
-/

namespace DataTree

abbrev Entries (κ α : Type) := List (κ × α)

namespace Entries

variable {κ α : Type}

def keys (m : Entries κ α) : List κ :=
  m.map Prod.fst

def values (m : Entries κ α) : List α :=
  m.map Prod.snd

/-- The entries in the order of their keys. -/
def orderedBy (le : κ → κ → Bool) (m : Entries κ α) : Entries κ α :=
  m.mergeSort fun a b => le a.1 b.1

theorem orderedBy_perm (le : κ → κ → Bool) (m : Entries κ α) : (m.orderedBy le).Perm m :=
  List.mergeSort_perm m _

theorem mem_keys_of_mem {m : Entries κ α} {key : κ} {a : α} (h : (key, a) ∈ m) : key ∈ m.keys :=
  List.mem_map_of_mem (f := Prod.fst) h

theorem mem_values_of_mem {m : Entries κ α} {key : κ} {a : α} (h : (key, a) ∈ m) :
    a ∈ m.values :=
  List.mem_map_of_mem (f := Prod.snd) h

theorem exists_mem_of_mem_values {m : Entries κ α} {a : α} (h : a ∈ m.values) :
    ∃ key, (key, a) ∈ m := by
  obtain ⟨⟨key, a⟩, hm, rfl⟩ := List.mem_map.1 h
  exact ⟨key, hm⟩

variable [DecidableEq κ]

def get? : Entries κ α → κ → Option α
  | [], _ => none
  | (k, a) :: m, key => if k = key then some a else get? m key

def has (m : Entries κ α) (key : κ) : Bool :=
  (m.get? key).isSome

/-- A key that is present keeps its place and takes the new value; a new one goes to the end. -/
def put (key : κ) (a : α) : Entries κ α → Entries κ α
  | [] => [(key, a)]
  | (k, b) :: m => if k = key then (k, a) :: m else (k, b) :: put key a m

def erase (key : κ) (m : Entries κ α) : Entries κ α :=
  m.filter (·.1 ≠ key)

/-- A repeated key keeps its first place and takes its last value. -/
def ofList (pairs : List (κ × α)) : Entries κ α :=
  pairs.foldl (fun m pair => m.put pair.1 pair.2) []

/-! ## Look-ups -/

@[simp] theorem get?_nil (key : κ) : get? ([] : Entries κ α) key = none := rfl

theorem get?_cons (k : κ) (a : α) (m : Entries κ α) (key : κ) :
    get? ((k, a) :: m) key = if k = key then some a else m.get? key := rfl

theorem has_iff_mem_keys {m : Entries κ α} {key : κ} : m.has key = true ↔ key ∈ m.keys := by
  induction m with
  | nil => simp [has, keys]
  | cons e m ih =>
    obtain ⟨k, a⟩ := e
    simp only [has, get?_cons, keys, List.map_cons, List.mem_cons] at ih ⊢
    by_cases h : k = key
    · simp [h]
    · simp [h, Ne.symm h, ih]

theorem get?_append (m n : Entries κ α) (key : κ) :
    get? (m ++ n) key = (m.get? key).or (n.get? key) := by
  induction m with
  | nil => simp
  | cons e m ih =>
    obtain ⟨k, a⟩ := e
    simp only [List.cons_append, get?_cons, ih]
    split <;> simp

theorem get?_eq_none_iff {m : Entries κ α} {key : κ} : m.get? key = none ↔ key ∉ m.keys := by
  rw [← has_iff_mem_keys, has]
  cases m.get? key <;> simp

theorem mem_of_get? {m : Entries κ α} {key : κ} {a : α} (h : m.get? key = some a) :
    (key, a) ∈ m := by
  induction m with
  | nil => cases h
  | cons e m ih =>
    obtain ⟨k, b⟩ := e
    rw [get?_cons] at h
    split at h
    · rename_i hk
      cases h
      exact hk ▸ List.mem_cons_self
    · exact List.mem_cons_of_mem _ (ih h)

theorem get?_of_mem {m : Entries κ α} (hn : m.keys.Nodup) {key : κ} {a : α} (h : (key, a) ∈ m) :
    m.get? key = some a := by
  induction m with
  | nil => cases h
  | cons e m ih =>
    obtain ⟨k, b⟩ := e
    obtain ⟨hk, hn⟩ := List.nodup_cons.1 hn
    rw [get?_cons]
    rcases List.mem_cons.1 h with e | h
    · cases e
      exact if_pos rfl
    · have hne : k ≠ key := by
        rintro rfl
        exact hk (mem_keys_of_mem h)
      rw [if_neg hne, ih hn h]

/-- Without repeated keys, look-ups do not depend on the order. -/
theorem get?_perm {m m' : Entries κ α} (h : m.Perm m') (hn : m.keys.Nodup) (key : κ) :
    m.get? key = m'.get? key := by
  have hn' : m'.keys.Nodup := (h.map Prod.fst).nodup_iff.1 hn
  refine Option.ext fun a => ⟨fun hg => ?_, fun hg => ?_⟩
  · exact get?_of_mem hn' (h.mem_iff.1 (mem_of_get? hg))
  · exact get?_of_mem hn (h.mem_iff.2 (mem_of_get? hg))

/-! ## Changes -/

theorem get?_put (key : κ) (a : α) (m : Entries κ α) (key' : κ) :
    get? (m.put key a) key' = if key = key' then some a else m.get? key' := by
  induction m with
  | nil => simp [put, get?_cons]
  | cons e m ih =>
    obtain ⟨k, b⟩ := e
    simp only [put]
    by_cases hk : k = key
    · subst hk
      by_cases h : k = key' <;> simp [get?_cons, h]
    · by_cases h : key = key'
      · subst h
        simp [hk, get?_cons, ih]
      · simp [hk, get?_cons, ih, h]

theorem keys_put (key : κ) (a : α) (m : Entries κ α) :
    keys (m.put key a) = if key ∈ m.keys then m.keys else m.keys ++ [key] := by
  induction m with
  | nil => simp [put, keys]
  | cons e m ih =>
    obtain ⟨k, b⟩ := e
    simp only [put]
    by_cases hk : k = key
    · simp [hk, keys]
    · by_cases h : key ∈ keys m
      · rw [if_pos h] at ih
        simp_all [keys]
      · rw [if_neg h] at ih
        simp_all [keys, Ne.symm hk]

theorem get?_erase (key : κ) (m : Entries κ α) (key' : κ) :
    get? (m.erase key) key' = if key = key' then none else m.get? key' := by
  induction m with
  | nil => simp [erase]
  | cons e m ih =>
    obtain ⟨k, b⟩ := e
    simp only [erase] at ih ⊢
    by_cases hk : k = key
    · subst hk
      by_cases h : k = key' <;> simp_all [get?_cons]
    · by_cases h : key = key'
      · subst h
        simp_all [get?_cons]
      · simp_all [get?_cons]

/-- A mapping made from a list has no key twice. -/
theorem nodup_keys_ofList (pairs : List (κ × α)) : (keys (ofList pairs)).Nodup := by
  suffices ∀ m : Entries κ α, m.keys.Nodup →
      (keys (pairs.foldl (fun m pair => m.put pair.1 pair.2) m)).Nodup from
    this [] List.nodup_nil
  induction pairs with
  | nil => exact fun m h => h
  | cons pair pairs ih =>
    intro m h
    refine ih _ ?_
    rw [keys_put]
    split
    · exact h
    · rename_i hn
      rw [List.nodup_append]
      refine ⟨h, by simp, fun a ha b hb => ?_⟩
      rw [List.mem_singleton.1 hb]
      exact fun e => hn (e ▸ ha)

theorem put_of_not_mem {key : κ} {m : Entries κ α} (h : key ∉ m.keys) (a : α) :
    m.put key a = m ++ [(key, a)] := by
  induction m with
  | nil => rfl
  | cons e m ih =>
    obtain ⟨k, b⟩ := e
    obtain ⟨hk, hm⟩ := not_or.1 (mt List.mem_cons.2 h)
    rw [put, if_neg (Ne.symm hk), ih hm, List.cons_append]

/-- Pairs whose keys differ are a mapping already. -/
theorem ofList_of_nodup {pairs : Entries κ α} (h : pairs.keys.Nodup) : ofList pairs = pairs := by
  suffices ∀ m : Entries κ α, (m.keys ++ pairs.keys).Nodup →
      pairs.foldl (fun m pair => m.put pair.1 pair.2) m = m ++ pairs from
    this [] h
  clear h
  induction pairs with
  | nil => exact fun m _ => (List.append_nil m).symm
  | cons pair pairs ih =>
    intro m hn
    have hpair : pair.1 ∉ m.keys := fun hm =>
      (List.nodup_append.1 hn).2.2 _ hm _ List.mem_cons_self rfl
    rw [List.foldl_cons, put_of_not_mem hpair]
    have hkeys : keys (m ++ [(pair.1, pair.2)]) ++ keys pairs = m.keys ++ keys (pair :: pairs) := by
      simp [keys]
    rw [ih _ (hkeys ▸ hn), List.append_assoc]
    rfl

end Entries

end DataTree
