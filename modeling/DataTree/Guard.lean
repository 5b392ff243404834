import DataTree.Fault

/-!
# Guarded insertion

The first entry under a name stays. A later one under the same name is a defect, unless the guard
tolerates names from a given list and this is one of them.
-/

namespace DataTree

inductive Guard where
  | strict
  | tolerant
  deriving DecidableEq, Repr, Inhabited

namespace Guard

instance : Vocabulary Guard where
  title := "GuardMode"
  members := [.strict, .tolerant]
  word
    | .strict => "strict"
    | .tolerant => "tolerant"
  mem_members a := by cases a <;> simp
  word_inj a b := by cases a <;> cases b <;> simp

/-- A second entry under `name` may be dropped in silence. -/
def forgives (g : Guard) (whitelist : List Name) (name : Name) : Bool :=
  g = .tolerant ∧ name ∈ whitelist

end Guard

/-- Inserts the node at `path` under `name`, or says why it is not there. -/
def Entries.insert {α : Type} (m : Entries Name α) (name : Name) (path : String)
    (a : α) (guard : Guard) (whitelist : List Name) : Entries Name α × Option Defect :=
  if m.has name then
    (m, if guard.forgives whitelist name then none else some ⟨.duplicate, path, name⟩)
  else (m ++ [(name, a)], none)

theorem Entries.insert_of_has {α : Type} {m : Entries Name α} {name : Name} (h : m.has name = true)
    (path : String) (a : α) (guard : Guard) (whitelist : List Name) :
    m.insert name path a guard whitelist =
      (m, if guard.forgives whitelist name then none else some ⟨.duplicate, path, name⟩) :=
  if_pos h

theorem Entries.insert_of_not_has {α : Type} {m : Entries Name α} {name : Name}
    (h : m.has name = false) (path : String) (a : α) (guard : Guard) (whitelist : List Name) :
    m.insert name path a guard whitelist = (m ++ [(name, a)], none) :=
  if_neg (by simp [h])

/-- What one guarded insertion is called with. -/
structure Insertion (α : Type) where
  name : Name
  path : String
  node : α
  guard : Guard
  whitelist : List Name

/-- Insertions one after the other: the mapping after the last one, and what each one returns. -/
def Entries.insertAll {α : Type} (m : Entries Name α) :
    List (Insertion α) → Entries Name α × List (Option Defect)
  | [] => (m, [])
  | c :: calls =>
    let (m, outcome) := m.insert c.name c.path c.node c.guard c.whitelist
    let (m, outcomes) := m.insertAll calls
    (m, outcome :: outcomes)

/-- An insertion whose guard is still to be read from a value. -/
structure Attempt (α : Type) where
  name : Name
  path : String
  node : α
  guard : Value
  whitelist : List Name

/-- A value that names no guard is a fault, and nothing is inserted. -/
def Entries.attempt {α : Type} (m : Entries Name α) (a : Attempt α) :
    Except Fault (Option Defect) × Entries Name α :=
  match a.guard.member Guard with
  | .ok guard =>
    let (m, defect) := m.insert a.name a.path a.node guard a.whitelist
    (.ok defect, m)
  | .error fault => (.error fault, m)

/-- Attempts in a row, each with its outcome and the mapping after it. -/
def Entries.attempts {α : Type} (m : Entries Name α) :
    List (Attempt α) → List (Except Fault (Option Defect) × Entries Name α)
  | [] => []
  | a :: rest =>
    let r := m.attempt a
    r :: r.2.attempts rest

end DataTree
