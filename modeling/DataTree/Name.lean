import DataTree.Text.Quoted

/-!
# Names

Nodes are known by their names. A schema node read from YANG may have none; it is then told apart
from its siblings by just that, and messages and paths call it `None`.
-/

namespace DataTree

abbrev Name := Option String

namespace Name

instance : LawfulBEq Name :=
  inferInstance

/-- A name as paths show it. -/
def text : Name → String
  | some s => s
  | none => "None"

/-- A name as messages show it. -/
def quoted : Name → String
  | some s => Text.quoted s
  | none => "None"

/-- The order by code points, with the missing name before all others. -/
def le : Name → Name → Bool
  | none, _ => true
  | some _, none => false
  | some a, some b => a ≤ b

theorem le_trans {a b c : Name} (h : le a b = true) (h' : le b c = true) : le a c = true := by
  match a, b, c with
  | none, _, _ => rfl
  | some _, none, _ => cases h
  | some _, some _, none => cases h'
  | some _, some _, some _ =>
    exact decide_eq_true (String.le_trans (of_decide_eq_true h) (of_decide_eq_true h'))

theorem le_total (a b : Name) : (le a b || le b a) = true := by
  match a, b with
  | none, _ => rfl
  | some _, none => rfl
  | some a, some b =>
    rw [Bool.or_eq_true]
    exact (String.le_total a b).imp decide_eq_true decide_eq_true

theorem le_antisymm {a b : Name} (h : le a b = true) (h' : le b a = true) : a = b := by
  match a, b with
  | none, none => rfl
  | none, some _ => cases h'
  | some _, none => cases h
  | some _, some _ =>
    exact congrArg some (String.le_antisymm (of_decide_eq_true h) (of_decide_eq_true h'))

/-- Names between square brackets. -/
def listText (names : List Name) : String :=
  "[" ++ Text.commaList (names.map quoted) ++ "]"

end Name

end DataTree
