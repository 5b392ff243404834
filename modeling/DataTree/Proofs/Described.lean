import DataTree.Tree.Description

/-!
# Described trees

What an accepted description gives. `Forest.WellFormed`: siblings have names, each its own, and
only directories have children. Every described tree is well-formed; the inversion lemmas
(`ofValue_map_eq_ok_iff`, `ofEntries_cons_eq_ok_iff`) open one step of reading.
-/

namespace DataTree

theorem bind_eq_ok_iff {α β : Type} {x : Except Fault α} {f : α → Except Fault β} {b : β} :
    (x >>= f) = .ok b ↔ ∃ a, x = .ok a ∧ f a = .ok b := by
  cases x with
  | error fault => simp [bind, Except.bind]
  | ok a => simp [bind, Except.bind]

theorem map_eq_ok_iff {α β : Type} {x : Except Fault α} {f : α → β} {b : β} :
    f <$> x = .ok b ↔ ∃ a, x = .ok a ∧ f a = b := by
  cases x with
  | error fault => simp [Functor.map, Except.map]
  | ok a => simp [Functor.map, Except.map]

@[simp] theorem pure_eq_ok_iff {α : Type} {a b : α} :
    (pure a : Except Fault α) = .ok b ↔ a = b := by
  simp [pure, Except.pure]

@[simp] theorem throw_ne_ok {α : Type} {fault : Fault} {a : α} :
    (throw fault : Except Fault α) ≠ .ok a := by
  simp [throw, throwThe, MonadExceptOf.throw]

/-! ## Well-formed trees -/

def Forest.WellFormed : Forest → Prop
  | nil => True
  | cons name kind _ children rest =>
    name.isSome ∧ name ∉ rest.names ∧ (kind.isDirectory = false → children = nil) ∧
      children.WellFormed ∧ rest.WellFormed

structure Tree.WellFormed (t : Tree) : Prop where
  bare : t.kind.isDirectory = false → t.children = .nil
  children : t.children.WellFormed

theorem Forest.WellFormed.nodup_names {f : Forest} (h : f.WellFormed) : f.names.Nodup := by
  induction f with
  | nil => exact List.nodup_nil
  | cons name kind visibility children rest _ ihr =>
    obtain ⟨-, hn, -, -, hr⟩ := h
    exact List.nodup_cons.2 ⟨hn, ihr hr⟩

theorem Forest.WellFormed.isSome_of_mem_names {f : Forest} (h : f.WellFormed) {name : Name}
    (hn : name ∈ f.names) : name.isSome = true := by
  induction f with
  | nil => cases hn
  | cons name' kind visibility children rest _ ihr =>
    obtain ⟨hs, -, -, -, hr⟩ := h
    rcases List.mem_cons.1 hn with rfl | hn
    · exact hs
    · exact ihr hr hn

/-! ## Reading a description -/

theorem Tree.ofValue_map_eq_ok_iff {name : Name} {path : String} {fields : List (String × Value)}
    {t : Tree} : Tree.ofValue name path (.map fields) = .ok t ↔
      Description.header name path fields = .ok (t.kind, t.visibility) ∧
      Forest.ofFields path fields = .ok t.children := by
  simp only [Tree.ofValue, bind_eq_ok_iff, pure_eq_ok_iff, Prod.exists]
  constructor
  · rintro ⟨k, v, hh, f, hf, rfl⟩
    exact ⟨hh, hf⟩
  · rintro ⟨hh, hf⟩
    exact ⟨_, _, hh, _, hf, rfl⟩

theorem Tree.exists_map_of_ofValue {name : Name} {path : String} {v : Value} {t : Tree}
    (h : Tree.ofValue name path v = .ok t) : ∃ fields, v = .map fields := by
  cases v with
  | map fields => exact ⟨fields, rfl⟩
  | _ => simp [Tree.ofValue] at h

/-! Of the fields, only the first one under `children` tells the children. -/

theorem Forest.ofFields_children {path : String} {rest : List (String × Value)} {v : Value} :
    Forest.ofFields path (("children", v) :: rest) =
      match v with
      | .map entries => Forest.ofEntries path [] entries
      | _ => .ok .nil := by
  rw [Forest.ofFields.eq_def]
  rfl

theorem Forest.ofFields_other {path key : String} {rest : List (String × Value)} {v : Value}
    (h : key ≠ "children") :
    Forest.ofFields path ((key, v) :: rest) = Forest.ofFields path rest := by
  rw [Forest.ofFields.eq_def]
  simp only [if_neg h]

theorem Forest.ofEntries_cons_seen {path key : String} {seen : List String} (h : key ∈ seen)
    (v : Value) (rest : List (String × Value)) :
    Forest.ofEntries path seen ((key, v) :: rest) = Forest.ofEntries path seen rest := by
  rw [Forest.ofEntries, if_pos h]

theorem Forest.ofEntries_cons_eq_ok_iff {path key : String} {seen : List String} {v : Value}
    {rest : List (String × Value)} {f : Forest} (h : key ∉ seen) :
    Forest.ofEntries path seen ((key, v) :: rest) = .ok f ↔
      ∃ t siblings, Tree.ofValue (some key) (Path.child path key) v = .ok t ∧
        Forest.ofEntries path (key :: seen) rest = .ok siblings ∧
        f = .cons (some key) t.kind t.visibility t.children siblings := by
  rw [Forest.ofEntries, if_neg h]
  simp only [bind_eq_ok_iff, pure_eq_ok_iff]
  constructor
  · rintro ⟨t, ht, siblings, hs, rfl⟩
    exact ⟨t, siblings, ht, hs, rfl⟩
  · rintro ⟨t, siblings, ht, hs, rfl⟩
    exact ⟨t, ht, siblings, hs, rfl⟩

/-- Only a directory declares children. -/
theorem Description.header_directory {name : Name} {path : String} {fields : Entries String Value}
    {k : Kind} {v : Visibility} (h : header name path fields = .ok (k, v))
    (hd : declaresChildren fields = true) : k.isDirectory = true := by
  simp only [header, bind_eq_ok_iff, hd, Bool.true_and] at h
  obtain ⟨-, -, k', -, v', -, h⟩ := h
  cases hk : k'.isDirectory with
  | false => simp [hk, map_eq_ok_iff] at h
  | true =>
    simp only [hk, Bool.not_true, Bool.false_eq_true, if_false, pure_eq_ok_iff,
      Prod.mk.injEq] at h
    rw [← h.1, hk]

/-- Fields that declare no children give none. -/
theorem Forest.ofFields_eq_nil {path : String} {fields : List (String × Value)} {f : Forest}
    (hd : Description.declaresChildren fields = false) (h : Forest.ofFields path fields = .ok f) :
    f = .nil := by
  induction fields with
  | nil => exact (pure_eq_ok_iff.1 h).symm
  | cons field rest ih =>
    obtain ⟨key, v⟩ := field
    by_cases hk : key = "children"
    · subst hk
      rw [ofFields_children] at h
      split at h
      · rename_i entries
        cases entries with
        | nil => exact (pure_eq_ok_iff.1 h).symm
        | cons _ _ => simp [Description.declaresChildren, Entries.get?_cons] at hd
      · cases h
        rfl
    · rw [ofFields_other hk] at h
      refine ih ?_ h
      simpa [Description.declaresChildren, Entries.get?_cons, hk] using hd

/-- A key that was seen is no name of the siblings that follow. -/
theorem Forest.not_mem_names_ofEntries {path : String} {seen : List String}
    {entries : List (String × Value)} {f : Forest} (h : Forest.ofEntries path seen entries = .ok f)
    {key : String} (hk : key ∈ seen) : some key ∉ f.names := by
  induction entries generalizing seen f with
  | nil =>
    cases pure_eq_ok_iff.1 h
    exact List.not_mem_nil
  | cons entry rest ih =>
    obtain ⟨key', v⟩ := entry
    by_cases hs : key' ∈ seen
    · rw [ofEntries_cons_seen hs] at h
      exact ih h hk
    · obtain ⟨t, siblings, -, hr, rfl⟩ := (ofEntries_cons_eq_ok_iff hs).1 h
      simp only [Forest.names, List.mem_cons, Option.some.injEq, not_or]
      exact ⟨fun e => hs (e ▸ hk), ih hr (List.mem_cons_of_mem _ hk)⟩

/-- What an accepted description describes is well-formed. -/
theorem Tree.wellFormed_of_ofValue {name : Name} {path : String} {v : Value} {t : Tree}
    (h : Tree.ofValue name path v = .ok t) : t.WellFormed := by
  revert t
  refine (Tree.ofValue.mutual_induct
    (fun name path v => ∀ {t}, Tree.ofValue name path v = .ok t → t.WellFormed)
    (fun path fields => ∀ {f}, Forest.ofFields path fields = .ok f → f.WellFormed)
    (fun path seen entries => ∀ {f}, Forest.ofEntries path seen entries = .ok f → f.WellFormed)
    ?mapping ?noMapping ?noFields ?children ?noChildren ?otherField ?noEntries ?seenEntry
    ?newEntry).1 name path v
  case mapping =>
    intro name path fields ih t h
    obtain ⟨hh, hf⟩ := Tree.ofValue_map_eq_ok_iff.1 h
    refine ⟨fun hk => ?_, ih hf⟩
    cases hd : Description.declaresChildren fields with
    | false => exact Forest.ofFields_eq_nil hd hf
    | true => simp [Description.header_directory hh hd] at hk
  case noMapping =>
    intro name path v hv t h
    obtain ⟨fields, rfl⟩ := Tree.exists_map_of_ofValue h
    exact (hv fields rfl).elim
  case noFields | noEntries =>
    intros
    rename_i h
    cases pure_eq_ok_iff.1 h
    trivial
  case children =>
    intro path rest entries ih f h
    rw [Forest.ofFields_children] at h
    exact ih h
  case noChildren =>
    intro path rest v hv f h
    rw [Forest.ofFields_children] at h
    split at h
    · exact (hv _ rfl).elim
    · cases h
      trivial
  case otherField =>
    intro path key v rest hk ih f h
    exact ih (Forest.ofFields_other hk ▸ h)
  case seenEntry =>
    intro path seen key v rest hs ih f h
    exact ih (Forest.ofEntries_cons_seen hs v rest ▸ h)
  case newEntry =>
    intro path seen key v rest hs iht ihr f h
    obtain ⟨t, siblings, ht, hr, rfl⟩ := (Forest.ofEntries_cons_eq_ok_iff hs).1 h
    have hwf := iht ht
    exact ⟨rfl, Forest.not_mem_names_ofEntries hr List.mem_cons_self, hwf.bare, hwf.children,
      ihr hr⟩

end DataTree
