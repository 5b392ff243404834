/-!
# Fixed vocabularies

The finite sets of words that descriptions and requests choose from, and how a member is shown.
-/

namespace DataTree

/-- The members of `α` in their fixed order, each with a word of its own, under a common title. -/
class Vocabulary (α : Type) where
  title : String
  members : List α
  word : α → String
  mem_members : ∀ a, a ∈ members
  word_inj : ∀ a b, word a = word b → a = b

namespace Vocabulary

variable {α : Type} [Vocabulary α]

/-- The member's name as a constant. -/
def constant (a : α) : String :=
  (word a).toUpper

/-- A member in full: `<Title.CONSTANT: 'word'>`. -/
def text (a : α) : String :=
  "<" ++ title α ++ "." ++ constant a ++ ": '" ++ word a ++ "'>"

/-- The member that a word names. -/
def ofWord? (s : String) : Option α :=
  (members : List α).find? (word · = s)

theorem ofWord?_eq_some_iff {s : String} {a : α} : ofWord? s = some a ↔ word a = s := by
  constructor
  · intro h
    simpa using List.find?_some h
  · intro h
    have ha : ((members : List α).find? (word · = s)).isSome := by
      rw [List.find?_isSome]
      exact ⟨a, mem_members a, by simpa using h⟩
    obtain ⟨b, hb⟩ := Option.isSome_iff_exists.1 ha
    have hw : word b = s := by simpa using List.find?_some hb
    rw [ofWord?, hb, word_inj b a (hw.trans h.symm)]

theorem ofWord?_word (a : α) : ofWord? (word a) = some a :=
  ofWord?_eq_some_iff.2 rfl

end Vocabulary

end DataTree
