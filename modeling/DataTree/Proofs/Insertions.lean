import DataTree.Proofs.Collected
import Mathlib.Data.List.ReduceOption

/-!
# Runs of guarded insertions

The first insertion under a name decides what stands there (`Entries.insertAll_eq`). Guards and
whitelists decide only which of the later ones are put on record.
-/

namespace DataTree

namespace Entries

variable {α : Type}

/-- The name stands in the mapping, or was called for before the `i`-th call. -/
def Taken (m : Entries Name α) (calls : List (Insertion α)) (i : Nat) (name : Name) : Prop :=
  name ∈ m.keys ∨ name ∈ (calls.take i).map Insertion.name

instance (m : Entries Name α) (calls : List (Insertion α)) (i : Nat) (name : Name) :
    Decidable (m.Taken calls i name) :=
  inferInstanceAs (Decidable (_ ∨ _))

/-- The entries that are new when their call comes. -/
def added (m : Entries Name α) (calls : List (Insertion α)) : Entries Name α :=
  (calls.mapIdx fun i c =>
    if m.Taken calls i c.name then none else some (c.name, c.node)).reduceOption

/-- What each call returns: a defect over a name that is taken, unless it is tolerated. -/
def outcomes (m : Entries Name α) (calls : List (Insertion α)) : List (Option Defect) :=
  calls.mapIdx fun i c =>
    if m.Taken calls i c.name ∧ ¬(c.guard = .tolerant ∧ c.name ∈ c.whitelist) then
      some ⟨.duplicate, c.path, c.name⟩
    else none

theorem mem_keys_addNew {κ : Type} [DecidableEq κ] {m : Entries κ α} {key key' : κ} {a : α} :
    key' ∈ (m.addNew key a).keys ↔ key' ∈ m.keys ∨ key' = key := by
  by_cases h : key ∈ m.keys
  · rw [addNew_of_mem h]
    exact ⟨.inl, fun h' => h'.elim id fun e => e ▸ h⟩
  · rw [addNew_of_not_mem h]
    simp [keys]

/-- After the first call, its name is one of those that are there. -/
theorem taken_addNew {m : Entries Name α} {c : Insertion α} {calls : List (Insertion α)} {i : Nat}
    {name : Name} :
    (m.addNew c.name c.node).Taken calls i name ↔ m.Taken (c :: calls) (i + 1) name := by
  rw [Taken, Taken, mem_keys_addNew, List.take_succ_cons, List.map_cons, List.mem_cons, or_assoc]

theorem taken_zero {m : Entries Name α} {calls : List (Insertion α)} {name : Name} :
    m.Taken calls 0 name ↔ name ∈ m.keys := by
  simp [Taken]

theorem addNew_append_added (m : Entries Name α) (c : Insertion α) (calls : List (Insertion α)) :
    m.addNew c.name c.node ++ (m.addNew c.name c.node).added calls = m ++ m.added (c :: calls) := by
  rw [added, added, List.mapIdx_cons]
  simp only [taken_addNew, taken_zero]
  by_cases h : c.name ∈ m.keys
  · rw [addNew_of_mem h, if_pos h, List.reduceOption_cons_of_none]
  · rw [addNew_of_not_mem h, if_neg h, List.reduceOption_cons_of_some, List.append_assoc,
      List.singleton_append]

theorem outcomes_cons (m : Entries Name α) (c : Insertion α) (calls : List (Insertion α)) :
    m.outcomes (c :: calls) =
      (m.insert c.name c.path c.node c.guard c.whitelist).2 ::
        (m.addNew c.name c.node).outcomes calls := by
  rw [outcomes, outcomes, List.mapIdx_cons, insert_snd]
  simp [taken_addNew, taken_zero, Guard.forgives]

/-- The mapping stays and grows by the new entries, and each call returns what it is to return. -/
theorem insertAll_eq (m : Entries Name α) (calls : List (Insertion α)) :
    m.insertAll calls = (m ++ m.added calls, m.outcomes calls) := by
  induction calls generalizing m with
  | nil => simp [insertAll, added, outcomes]
  | cons c calls ih =>
    rw [insertAll, outcomes_cons, ← addNew_append_added]
    simp only [ih, insert_fst]

theorem added_reguarded (m : Entries Name α) (calls : List (Insertion α)) (guard : Nat → Guard)
    (whitelist : Nat → List Name) :
    m.added (calls.mapIdx fun i c => { c with guard := guard i, whitelist := whitelist i }) =
      m.added calls := by
  have hnames : (calls.mapIdx fun i c =>
      ({ c with guard := guard i, whitelist := whitelist i } : Insertion α)).map Insertion.name =
      calls.map Insertion.name := by
    refine List.ext_getElem? fun i => ?_
    simp [List.getElem?_mapIdx, Function.comp_def]
  simp only [added, Taken, List.map_take, hnames, List.mapIdx_mapIdx, Function.comp_def]

/-- No entry is overwritten or moved, the first call under a new name adds its node, and guards and
whitelists do not matter for that. A call whose name is taken returns a defect at its own path,
unless its guard is tolerant and the name on its whitelist. -/
theorem insertAll_first_wins (m : Entries Name α) (calls : List (Insertion α)) :
    (m.insertAll calls).1 = m ++ (calls.mapIdx fun i c =>
      if m.Taken calls i c.name then none else some (c.name, c.node)).reduceOption ∧
    (∀ (guard : Nat → Guard) (whitelist : Nat → List Name),
      (m.insertAll (calls.mapIdx fun i c =>
        { c with guard := guard i, whitelist := whitelist i })).1 = (m.insertAll calls).1) ∧
    (m.insertAll calls).2 = calls.mapIdx fun i c =>
      if m.Taken calls i c.name ∧ ¬(c.guard = .tolerant ∧ c.name ∈ c.whitelist) then
        some ⟨.duplicate, c.path, c.name⟩
      else none := by
  refine ⟨by rw [insertAll_eq]; rfl, fun guard whitelist => ?_, by rw [insertAll_eq]; rfl⟩
  rw [insertAll_eq, insertAll_eq, added_reguarded]

end Entries

end DataTree
