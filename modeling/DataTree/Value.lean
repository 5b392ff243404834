import DataTree.Text.Quoted
import DataTree.Visibility

/-!
# Dynamic values

What a description or an argument may hold, how it is shown in messages, and when it counts as
true. Floating-point numbers are only ever shown and tested for zero, so they are their text.
-/

namespace DataTree

open Text (quoted commaList)

inductive Value where
  | null
  | bool (b : Bool)
  | int (n : Int)
  | float (text : String)
  | str (s : String)
  | visibility (v : Visibility)
  | list (items : List Value)
  | map (entries : List (String × Value))
  deriving Inhabited

namespace Value

mutual

/-- A value as messages show it. -/
def text : Value → String
  | null => "None"
  | bool true => "True"
  | bool false => "False"
  | int n => toString n
  | float t => t
  | str s => quoted s
  | visibility v => Vocabulary.text v
  | list items => "[" ++ commaList (texts items) ++ "]"
  | map entries => "\x7b" ++ commaList (fieldTexts entries) ++ "\x7d"

def texts : List Value → List String
  | [] => []
  | v :: vs => v.text :: texts vs

def fieldTexts : List (String × Value) → List String
  | [] => []
  | (key, v) :: rest => (quoted key ++ ": " ++ v.text) :: fieldTexts rest

end

/-- The type of a value as messages show it. -/
def typeText : Value → String
  | null => "<class 'NoneType'>"
  | bool _ => "<class 'bool'>"
  | int _ => "<class 'int'>"
  | float _ => "<class 'float'>"
  | str _ => "<class 'str'>"
  | visibility _ => "<enum '" ++ Vocabulary.title Visibility ++ "'>"
  | list _ => "<class 'list'>"
  | map _ => "<class 'dict'>"

/-- Nothing, no, zero and whatever is empty are false. -/
def isTrue : Value → Bool
  | null => false
  | bool b => b
  | int n => n ≠ 0
  | float t => t ≠ "0.0" ∧ t ≠ "-0.0"
  | str s => s ≠ ""
  | visibility _ => true
  | list items => !items.isEmpty
  | map entries => !entries.isEmpty

/-- The word that a value stands for: a string, or a declared visibility. -/
def word? : Value → Option String
  | str s => some s
  | visibility v => some (Vocabulary.word v)
  | _ => none

/-- The member of a vocabulary that a value names. -/
def member? (α : Type) [Vocabulary α] (v : Value) : Option α :=
  v.word?.bind Vocabulary.ofWord?

end Value

end DataTree
