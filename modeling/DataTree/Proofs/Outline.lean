import DataTree.Proofs.Described

/-!
# Outlines of descriptions

A description reaches others through its `children` mapping, and these reach more. The outline of a
description lists it and all that it reaches in pre-order, each with the name and the path that its
node is to have. It is there for any value, accepted or not. What a description declares is read
entry by entry (`Forest.ofFields_eq`), so proofs about reading go by induction on what is declared
(`Value.induction_entries`).

What a single description says of its node is told by two relations: `HasKind fields k` and
`Declares fields v`. Reading a description computes them (`kind_eq_ok_iff`, `visibility_eq_ok_iff`).
-/

namespace DataTree

/-! ## Entries of mappings -/

namespace Entries

variable {κ α : Type} [DecidableEq κ]

/-- The first entry under each key that was not `seen` before. -/
def unseen (seen : List κ) : Entries κ α → Entries κ α
  | [] => []
  | (key, a) :: rest =>
    if key ∈ seen then unseen seen rest else (key, a) :: unseen (key :: seen) rest

theorem unseen_subset (seen : List κ) (m : Entries κ α) : m.unseen seen ⊆ m := by
  induction m generalizing seen with
  | nil => exact List.Subset.refl _
  | cons e rest ih =>
    rw [unseen]
    split
    · exact fun _ he => List.mem_cons_of_mem _ (ih _ he)
    · exact List.cons_subset_cons _ (ih _)

end Entries

namespace Value

/-- The descriptions that a description declares for its children, by name. -/
def entries : Value → Entries String Value
  | map fields =>
    match Entries.get? fields "children" with
    | some (map children) => Entries.unseen [] children
    | _ => []
  | _ => []

theorem entries_map_cons_children (v : Value) (rest : List (String × Value)) :
    (map (("children", v) :: rest)).entries =
      match v with
      | map children => Entries.unseen [] children
      | _ => [] := by
  cases v <;> rfl

theorem entries_map_cons_other {key : String} (h : key ≠ "children") (v : Value)
    (rest : List (String × Value)) : (map ((key, v) :: rest)).entries = (map rest).entries := by
  simp only [entries, Entries.get?_cons, if_neg h]

theorem sizeOf_lt_of_mem_map {fields : List (String × Value)} {e : String × Value}
    (he : e ∈ fields) : sizeOf e.2 < sizeOf (map fields) := by
  have hlist := List.sizeOf_lt_of_mem he
  obtain ⟨key, v⟩ := e
  simp only [Prod.mk.sizeOf_spec, map.sizeOf_spec] at hlist ⊢
  omega

theorem sizeOf_lt_of_mem_entries {v : Value} {e : String × Value} (he : e ∈ v.entries) :
    sizeOf e.2 < sizeOf v := by
  cases v with
  | map fields =>
    rw [entries] at he
    split at he
    · rename_i children hc
      have hchildren := sizeOf_lt_of_mem_map (Entries.mem_of_get? hc)
      have hentry := sizeOf_lt_of_mem_map (Entries.unseen_subset _ _ he)
      exact Nat.lt_trans hentry hchildren
    · cases he
  | _ => cases he

/-- The value is the word of a member of a vocabulary. -/
def Names {α : Type} [Vocabulary α] (v : Value) (a : α) : Prop :=
  v.word? = some (Vocabulary.word a)

theorem Names.ne_null {α : Type} [Vocabulary α] {v : Value} {a : α} (h : v.Names a) :
    v ≠ .null := by
  rintro rfl
  cases h

theorem Names.ne_bool {α : Type} [Vocabulary α] {v : Value} {a : α} (h : v.Names a) (b : Bool) :
    v ≠ .bool b := by
  rintro rfl
  cases h

theorem member?_eq_some_iff {α : Type} [Vocabulary α] {v : Value} {a : α} :
    v.member? α = some a ↔ v.Names a := by
  simp [member?, Names, Option.bind_eq_some_iff, Vocabulary.ofWord?_eq_some_iff]

theorem member?_eq_none_iff {α : Type} [Vocabulary α] {v : Value} :
    v.member? α = none ↔ ∀ a : α, ¬ v.Names a := by
  simp only [← member?_eq_some_iff, Option.eq_none_iff_forall_ne_some, ne_eq]

end Value

/-! ## Outlines -/

/-- A description, and the name and the path of its node. -/
structure Described where
  name : Name
  path : String
  value : Value

/-- A description and all that it reaches, in pre-order. -/
def Value.outline (name : Name) (path : String) (v : Value) : List Described :=
  ⟨name, path, v⟩ :: v.entries.attach.flatMap fun ⟨e, _⟩ =>
    e.2.outline (some e.1) (Path.child path e.1)
termination_by sizeOf v
decreasing_by exact Value.sizeOf_lt_of_mem_entries ‹_›

/-- The outlines of children of the node at `path`, one after the other. -/
def Entries.outline (path : String) (m : Entries String Value) : List Described :=
  m.flatMap fun e => e.2.outline (some e.1) (Path.child path e.1)

@[simp] theorem Entries.outline_nil (path : String) : Entries.outline path [] = [] := rfl

@[simp] theorem Entries.outline_cons (path key : String) (v : Value) (m : Entries String Value) :
    Entries.outline path ((key, v) :: m) =
      v.outline (some key) (Path.child path key) ++ Entries.outline path m := rfl

theorem Value.outline_eq (name : Name) (path : String) (v : Value) :
    v.outline name path = ⟨name, path, v⟩ :: Entries.outline path v.entries := by
  rw [Value.outline, Entries.outline]
  simp only [List.flatMap_subtype, List.unattach_attach]

/-- A proof about a value from the proofs about the descriptions that it declares. -/
theorem Value.induction_entries {motive : Value → Prop}
    (step : ∀ v : Value, (∀ e ∈ v.entries, motive e.2) → motive v) (v : Value) : motive v := by
  induction hn : sizeOf v using Nat.strongRecOn generalizing v with
  | ind n ih => exact step v fun e he => ih _ (hn ▸ sizeOf_lt_of_mem_entries he) e.2 rfl

/-! ## Reading what a description declares -/

/-- Siblings from their descriptions, one for each entry. -/
def Forest.ofDescriptions (path : String) : Entries String Value → Except Fault Forest
  | [] => return .nil
  | (key, v) :: rest => do
    let tree ← Tree.ofValue (some key) (Path.child path key) v
    let siblings ← Forest.ofDescriptions path rest
    return .cons (some key) tree.kind tree.visibility tree.children siblings

theorem Forest.ofEntries_eq (path : String) (seen : List String) (m : Entries String Value) :
    Forest.ofEntries path seen m = Forest.ofDescriptions path (m.unseen seen) := by
  induction m generalizing seen with
  | nil => rw [Forest.ofEntries, Entries.unseen, Forest.ofDescriptions]
  | cons e rest ih =>
    obtain ⟨key, v⟩ := e
    by_cases hs : key ∈ seen
    · rw [ofEntries_cons_seen hs, ih, Entries.unseen, if_pos hs]
    · rw [Forest.ofEntries, if_neg hs, Entries.unseen, if_neg hs, Forest.ofDescriptions, ih]

theorem Forest.ofFields_eq (path : String) (fields : List (String × Value)) :
    Forest.ofFields path fields = Forest.ofDescriptions path (Value.map fields).entries := by
  induction fields with
  | nil => rw [Forest.ofFields]; rfl
  | cons field rest ih =>
    obtain ⟨key, v⟩ := field
    by_cases hk : key = "children"
    · subst hk
      rw [ofFields_children, Value.entries_map_cons_children]
      cases v with
      | map children => exact Forest.ofEntries_eq path [] children
      | _ => rfl
    · rw [ofFields_other hk, Value.entries_map_cons_other hk, ih]

/-! ## The kind and the visibility of a description -/

namespace Description

variable {fields : Entries String Value}

/-- The field is missing or null. -/
def Blank (fields : Entries String Value) (key : String) : Prop :=
  fields.get? key = none ∨ fields.get? key = some .null

/-- The kind that a description asks for: the one it names, and without a name a container if it
mentions children, be they null, and else a leaf. -/
inductive Asks (fields : Entries String Value) : Kind → Prop
  | container : Blank fields "kind" → fields.has "children" = true → Asks fields .container
  | leaf : Blank fields "kind" → fields.has "children" = false → Asks fields .leaf
  | named {v : Value} {k : Kind} : fields.get? "kind" = some v → v.Names k → Asks fields k

/-- The kind of a node: the one that its description asks for, but a leaf of type `leafref` is a
leafref. -/
inductive HasKind (fields : Entries String Value) : Kind → Prop
  | asked {k : Kind} : Asks fields k →
      ¬ (k = .leaf ∧ fields.get? "type" = some (.str "leafref")) → HasKind fields k
  | reference : Asks fields .leaf → fields.get? "type" = some (.str "leafref") →
      HasKind fields .leafref

/-- The visibility that a description declares. -/
inductive Declares (fields : Entries String Value) : Visibility → Prop
  | inherited : Blank fields "config" → Declares fields .inherited
  | writable : fields.get? "config" = some (.bool true) → Declares fields .writable
  | readOnly : fields.get? "config" = some (.bool false) → Declares fields .readOnly
  | named {v : Value} {x : Visibility} : fields.get? "config" = some v → v.Names x →
      Declares fields x

theorem blank_or_given (fields : Entries String Value) (key : String) :
    Blank fields key ∨ ∃ v, fields.get? key = some v ∧ v ≠ .null := by
  cases hg : fields.get? key with
  | none => exact .inl (.inl hg)
  | some v =>
    by_cases hv : v = .null
    · exact .inl (.inr (hv ▸ hg))
    · exact .inr ⟨v, rfl, hv⟩

theorem not_blank {key : String} {v : Value} (hg : fields.get? key = some v) (hv : v ≠ .null) :
    ¬ Blank fields key := by
  rintro (h | h)
  · cases hg.symm.trans h
  · exact hv (Option.some.inj (hg.symm.trans h))

/-! Each reading function by what the field holds. -/

theorem declaredKind_of_blank (h : Blank fields "kind") (name : Name) :
    declaredKind name fields = .ok (if fields.has "children" then .container else .leaf) := by
  rcases h with h | h <;> simp only [declaredKind, h]

theorem declaredKind_of_given {v : Value} (hg : fields.get? "kind" = some v) (hv : v ≠ .null)
    (name : Name) :
    declaredKind name fields =
      match v.member? Kind with
      | some k => .ok k
      | none => .error (.unknownKind name v) := by
  rw [declaredKind, hg]
  cases v with
  | null => exact absurd rfl hv
  | _ => rfl

theorem visibility_of_blank (h : Blank fields "config") (name : Name) :
    visibility name fields = .ok .inherited := by
  rcases h with h | h <;> simp only [visibility, h]

theorem visibility_of_bool {b : Bool} (h : fields.get? "config" = some (.bool b)) (name : Name) :
    visibility name fields = .ok (.ofBool b) := by
  simp only [visibility, h]

theorem visibility_of_given {v : Value} (hg : fields.get? "config" = some v) (hv : v ≠ .null)
    (hb : ∀ b, v ≠ .bool b) (name : Name) :
    visibility name fields =
      match v.member? Visibility with
      | some x => .ok x
      | none => .error (.unknownVisibility name v) := by
  rw [visibility, hg]
  cases v with
  | null => exact absurd rfl hv
  | bool b => exact absurd rfl (hb b)
  | _ => rfl

theorem declaredKind_eq_ok_iff {name : Name} {k : Kind} :
    declaredKind name fields = .ok k ↔ Asks fields k := by
  constructor
  · intro h
    rcases blank_or_given fields "kind" with hb | ⟨v, hg, hv⟩
    · rw [declaredKind_of_blank hb] at h
      split at h <;> cases h
      · exact .container hb ‹_›
      · exact .leaf hb (Bool.eq_false_iff.2 ‹_›)
    · rw [declaredKind_of_given hg hv] at h
      split at h <;> cases h
      exact .named hg (Value.member?_eq_some_iff.1 ‹_›)
  · rintro (⟨hb, hc⟩ | ⟨hb, hc⟩ | ⟨hg, hv⟩)
    · rw [declaredKind_of_blank hb, if_pos hc]
    · rw [declaredKind_of_blank hb, if_neg (by simp [hc])]
    · simp only [declaredKind_of_given hg hv.ne_null, Value.member?_eq_some_iff.2 hv]

theorem isReference_iff :
    isReference fields = true ↔ fields.get? "type" = some (.str "leafref") := by
  unfold isReference
  split
  · simp [*]
  · simp_all

theorem kind_eq_ok_iff {name : Name} {k : Kind} :
    kind name fields = .ok k ↔ HasKind fields k := by
  simp only [kind, bind_eq_ok_iff, declaredKind_eq_ok_iff]
  constructor
  · rintro ⟨k', hk, h⟩
    split at h
    · split at h <;> cases h
      · exact .reference hk (isReference_iff.1 ‹_›)
      · exact .asked hk fun ht => absurd (isReference_iff.2 ht.2) ‹_›
    · cases h
      exact .asked hk fun ht => absurd ht.1 ‹_›
  · rintro (⟨hk, ht⟩ | ⟨hk, ht⟩)
    · refine ⟨k, hk, ?_⟩
      split
      · rw [if_neg fun hr => ht ⟨rfl, isReference_iff.1 hr⟩]
        rfl
      · rfl
    · exact ⟨.leaf, hk, by simp only [if_pos (isReference_iff.2 ht)]; rfl⟩

theorem visibility_eq_ok_iff {name : Name} {x : Visibility} :
    visibility name fields = .ok x ↔ Declares fields x := by
  constructor
  · intro h
    rcases blank_or_given fields "config" with hb | ⟨v, hg, hv⟩
    · cases (visibility_of_blank hb name).symm.trans h
      exact .inherited hb
    by_cases hb : ∃ b, v = .bool b
    · obtain ⟨b, rfl⟩ := hb
      cases (visibility_of_bool hg name).symm.trans h
      cases b with
      | true => exact .writable hg
      | false => exact .readOnly hg
    · rw [visibility_of_given hg hv fun b e => hb ⟨b, e⟩] at h
      split at h <;> cases h
      exact .named hg (Value.member?_eq_some_iff.1 ‹_›)
  · rintro (hb | hg | hg | ⟨hg, hv⟩)
    · exact visibility_of_blank hb name
    · exact visibility_of_bool hg name
    · exact visibility_of_bool hg name
    · simp only [visibility_of_given hg hv.ne_null hv.ne_bool, Value.member?_eq_some_iff.2 hv]

end Description

end DataTree
