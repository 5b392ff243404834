import DataTree.Proofs.Planted
import Mathlib.Data.List.Perm.Basic

/-!
# Reordered descriptions

`v.Reordered v'`: the two descriptions differ only in the order of the entries of `children`
mappings, at any number of levels. A description is accepted in one order if it is in the other,
and the trees are then reordered themselves (`Value.Reordered.exists_ofValue`).

* `EntriesReordered.of_perm`: entries with keys of their own may stand in any order.
* `f.find? name`: the tree under that name among siblings. It does not depend on their order.
-/

namespace DataTree

/-! ## Descriptions -/

mutual

inductive Value.Reordered : Value → Value → Prop
  | refl (v : Value) : Value.Reordered v v
  | children {before after entries entries' : List (String × Value)} :
      "children" ∉ Entries.keys before → EntriesReordered entries entries' →
      Value.Reordered (.map (before ++ ("children", .map entries) :: after))
        (.map (before ++ ("children", .map entries') :: after))

inductive EntriesReordered : List (String × Value) → List (String × Value) → Prop
  | nil : EntriesReordered [] []
  | cons {v v' : Value} {rest rest' : List (String × Value)} (key : String) :
      Value.Reordered v v' → EntriesReordered rest rest' →
      EntriesReordered ((key, v) :: rest) ((key, v') :: rest')
  | swap {key key' : String} (v v' : Value) (rest : List (String × Value)) : key ≠ key' →
      EntriesReordered ((key, v) :: (key', v') :: rest) ((key', v') :: (key, v) :: rest)
  | trans {entries entries' entries'' : List (String × Value)} :
      EntriesReordered entries entries' → EntriesReordered entries' entries'' →
      EntriesReordered entries entries''

end

theorem EntriesReordered.refl (entries : List (String × Value)) :
    EntriesReordered entries entries := by
  induction entries with
  | nil => exact .nil
  | cons entry rest ih => exact .cons entry.1 (.refl entry.2) ih

theorem EntriesReordered.of_perm {entries entries' : List (String × Value)}
    (h : entries.Perm entries') (hn : (Entries.keys entries).Nodup) :
    EntriesReordered entries entries' := by
  induction h with
  | nil => exact .nil
  | cons entry _ ih => exact .cons entry.1 (.refl entry.2) (ih (List.nodup_cons.1 hn).2)
  | swap e e' rest =>
    refine .swap e'.2 e.2 rest fun he => (List.nodup_cons.1 hn).1 ?_
    exact he ▸ List.mem_cons_self
  | trans h _ ih ih' => exact .trans (ih hn) (ih' ((h.map Prod.fst).nodup_iff.1 hn))

/-! ## Trees -/

inductive Forest.Reordered : Forest → Forest → Prop
  | nil : Forest.Reordered .nil .nil
  | cons {children children' rest rest' : Forest} (name : Name) (kind : Kind)
      (visibility : Visibility) : children.Reordered children' → rest.Reordered rest' →
      Forest.Reordered (.cons name kind visibility children rest)
        (.cons name kind visibility children' rest')
  | swap {name name' : Name} {kind kind' : Kind} {visibility visibility' : Visibility}
      {children children' rest : Forest} : name ≠ name' →
      Forest.Reordered
        (.cons name kind visibility children (.cons name' kind' visibility' children' rest))
        (.cons name' kind' visibility' children' (.cons name kind visibility children rest))
  | trans {f f' f'' : Forest} : f.Reordered f' → f'.Reordered f'' → f.Reordered f''

structure Tree.Reordered (t t' : Tree) : Prop where
  kind : t.kind = t'.kind
  visibility : t.visibility = t'.visibility
  children : t.children.Reordered t'.children

theorem Forest.Reordered.refl (f : Forest) : f.Reordered f := by
  induction f with
  | nil => exact .nil
  | cons name kind visibility _ _ ihc ihr => exact .cons name kind visibility ihc ihr

theorem Tree.Reordered.refl (t : Tree) : t.Reordered t :=
  ⟨rfl, rfl, .refl t.children⟩

theorem Tree.Reordered.trans {t t' t'' : Tree} (h : t.Reordered t') (h' : t'.Reordered t'') :
    t.Reordered t'' :=
  ⟨h.kind.trans h'.kind, h.visibility.trans h'.visibility, h.children.trans h'.children⟩

theorem Forest.Reordered.perm_names {f f' : Forest} (h : f.Reordered f') :
    f.names.Perm f'.names := by
  induction h with
  | nil => exact .refl _
  | cons name _ _ _ _ _ ih => exact ih.cons name
  | swap _ => exact .swap _ _ _
  | trans _ _ ih ih' => exact ih.trans ih'

theorem Forest.Reordered.size_eq {f f' : Forest} (h : f.Reordered f') : f.size = f'.size := by
  induction h with
  | nil => rfl
  | cons _ _ _ _ _ ihc ihr => rw [Forest.size, Forest.size, ihc, ihr]
  | swap _ =>
    simp only [Forest.size]
    omega
  | trans _ _ ih ih' => exact ih.trans ih'

/-! ## Looking up siblings -/

def Forest.find? (name : Name) : Forest → Option Tree
  | nil => none
  | cons name' kind visibility children rest =>
    if name' = name then some ⟨kind, visibility, children⟩ else rest.find? name

theorem Forest.Reordered.exists_find? {f f' : Forest} (h : f.Reordered f') {name : Name} {t : Tree}
    (ht : f.find? name = some t) : ∃ t', f'.find? name = some t' ∧ t.Reordered t' := by
  induction h generalizing t with
  | nil => cases ht
  | cons name' kind visibility hc hr _ ihr =>
    rw [Forest.find?] at ht ⊢
    by_cases hn : name' = name
    · rw [if_pos hn] at ht ⊢
      cases ht
      exact ⟨_, rfl, rfl, rfl, hc⟩
    · rw [if_neg hn] at ht ⊢
      exact ihr ht
  | @swap name' name'' _ _ _ _ _ _ _ hne =>
    refine ⟨t, ?_, .refl t⟩
    rw [← ht]
    simp only [Forest.find?]
    by_cases hn : name' = name
    · have hn' : name'' ≠ name := fun e => hne (hn.trans e.symm)
      rw [if_neg hn', if_pos hn, if_pos hn]
    · rw [if_neg hn, if_neg hn]
  | trans _ _ ih ih' =>
    obtain ⟨t', ht', h⟩ := ih ht
    obtain ⟨t'', ht'', h'⟩ := ih' ht'
    exact ⟨t'', ht'', h.trans h'⟩

/-! ## Reading a reordered description -/

/-- Only whether a key was seen counts. -/
theorem Forest.ofEntries_congr_seen {path : String} {entries : List (String × Value)}
    {seen seen' : List String} (h : ∀ key, key ∈ seen ↔ key ∈ seen') :
    Forest.ofEntries path seen entries = Forest.ofEntries path seen' entries := by
  induction entries generalizing seen seen' with
  | nil => rw [Forest.ofEntries, Forest.ofEntries]
  | cons entry rest ih =>
    obtain ⟨key, v⟩ := entry
    have hcons : ∀ key', key' ∈ key :: seen ↔ key' ∈ key :: seen' := fun key' => by
      rw [List.mem_cons, List.mem_cons, h]
    rw [Forest.ofEntries, Forest.ofEntries, ih h, ih hcons]
    simp only [h key]

theorem Forest.ofFields_of_not_mem {path : String} {before rest : List (String × Value)}
    (h : "children" ∉ Entries.keys before) :
    Forest.ofFields path (before ++ rest) = Forest.ofFields path rest := by
  induction before with
  | nil => rfl
  | cons field before ih =>
    obtain ⟨key, v⟩ := field
    rw [Entries.keys, List.map_cons, List.mem_cons, not_or] at h
    rw [List.cons_append, Forest.ofFields_other (Ne.symm h.1), ih h.2]

theorem EntriesReordered.length_eq {entries entries' : List (String × Value)}
    (h : EntriesReordered entries entries') : entries.length = entries'.length :=
  match h with
  | .nil => rfl
  | .cons _ _ hr => congrArg (· + 1) hr.length_eq
  | .swap _ _ _ _ => rfl
  | .trans h h' => h.length_eq.trans h'.length_eq

namespace Description

variable {before after entries entries' : List (String × Value)}

theorem get?_children (h : "children" ∉ Entries.keys before) :
    Entries.get? (before ++ ("children", .map entries) :: after) "children" =
      some (.map entries) := by
  rw [Entries.get?_append, Entries.get?_eq_none_iff.2 h, Option.none_or, Entries.get?_cons,
    if_pos rfl]

theorem get?_other {key : String} (h : key ≠ "children") :
    Entries.get? (before ++ ("children", .map entries) :: after) key =
      Entries.get? (before ++ ("children", .map entries') :: after) key := by
  rw [Entries.get?_append, Entries.get?_append, Entries.get?_cons, Entries.get?_cons,
    if_neg h.symm, if_neg h.symm]

/-- The node itself does not show in what order its children are declared. -/
theorem header_reordered (hb : "children" ∉ Entries.keys before)
    (hlen : entries.length = entries'.length) (name : Name) (path : String) :
    header name path (before ++ ("children", .map entries) :: after) =
      header name path (before ++ ("children", .map entries') :: after) := by
  have hother : ∀ {key : String}, key ≠ "children" →
      Entries.get? (before ++ ("children", .map entries) :: after) key =
        Entries.get? (before ++ ("children", .map entries') :: after) key := get?_other
  have hcheck : ∀ es, checkChildren name (before ++ ("children", .map es) :: after) = .ok () :=
    fun es => by rw [checkChildren, get?_children hb]
  have hkind : kind name (before ++ ("children", .map entries) :: after) =
      kind name (before ++ ("children", .map entries') :: after) := by
    unfold kind declaredKind isReference Entries.has
    rw [hother (by decide : "kind" ≠ "children"), hother (by decide : "type" ≠ "children"),
      get?_children hb, get?_children hb]
    rfl
  have hdeclares : declaresChildren (before ++ ("children", .map entries) :: after) =
      declaresChildren (before ++ ("children", .map entries') :: after) := by
    unfold declaresChildren
    rw [get?_children hb, get?_children hb]
    cases entries <;> cases entries' <;> first | rfl | cases hlen
  have hvisibility : visibility name (before ++ ("children", .map entries) :: after) =
      visibility name (before ++ ("children", .map entries') :: after) := by
    unfold visibility
    rw [hother (by decide : "config" ≠ "children")]
  unfold header
  rw [hcheck, hcheck, hkind, hdeclares, hvisibility]

end Description

theorem Forest.ofEntries_cons_cons_seen {path key : String} {seen : List String}
    (h : key ∈ seen) (key' : String) (v v' : Value) (rest : List (String × Value)) :
    Forest.ofEntries path seen ((key', v') :: (key, v) :: rest) =
      Forest.ofEntries path seen ((key', v') :: rest) := by
  rw [Forest.ofEntries, ofEntries_cons_seen h, ofEntries_cons_seen (List.mem_cons_of_mem _ h)]
  rw [Forest.ofEntries]

/-- Two neighbours of different names are read as well in the other order. -/
theorem Forest.exists_ofEntries_swap {path key key' : String} {v v' : Value} {seen : List String}
    {rest : List (String × Value)} {f : Forest} (hne : key ≠ key')
    (hf : Forest.ofEntries path seen ((key, v) :: (key', v') :: rest) = .ok f) :
    ∃ f', Forest.ofEntries path seen ((key', v') :: (key, v) :: rest) = .ok f' ∧
      f.Reordered f' := by
  by_cases hk : key ∈ seen
  · rw [Forest.ofEntries_cons_seen hk] at hf
    exact ⟨f, (Forest.ofEntries_cons_cons_seen hk ..).trans hf, .refl f⟩
  by_cases hk' : key' ∈ seen
  · rw [Forest.ofEntries_cons_cons_seen hk'] at hf
    exact ⟨f, (Forest.ofEntries_cons_seen hk' ..).trans hf, .refl f⟩
  obtain ⟨t, others, ht, ho, rfl⟩ := (Forest.ofEntries_cons_eq_ok_iff hk).1 hf
  have hk'c : key' ∉ key :: seen := by simp [hk', hne.symm]
  have hkc : key ∉ key' :: seen := by simp [hk, hne]
  obtain ⟨t', siblings, ht', hs, rfl⟩ := (Forest.ofEntries_cons_eq_ok_iff hk'c).1 ho
  have hseen : ∀ k, k ∈ key' :: key :: seen ↔ k ∈ key :: key' :: seen := fun k => by
    simp only [List.mem_cons, or_left_comm]
  rw [Forest.ofEntries_congr_seen hseen] at hs
  have hinner := (Forest.ofEntries_cons_eq_ok_iff hkc).2 ⟨t, siblings, ht, hs, rfl⟩
  have houter := (Forest.ofEntries_cons_eq_ok_iff hk').2 ⟨t', _, ht', hinner, rfl⟩
  refine ⟨_, houter, .swap ?_⟩
  simpa using hne

mutual

theorem Value.Reordered.exists_ofValue {v v' : Value} (h : v.Reordered v') {name : Name}
    {path : String} {t : Tree} (ht : Tree.ofValue name path v = .ok t) :
    ∃ t', Tree.ofValue name path v' = .ok t' ∧ t.Reordered t' :=
  match h with
  | .refl _ => ⟨t, ht, .refl t⟩
  | .children hb hes => by
    obtain ⟨hh, hf⟩ := Tree.ofValue_map_eq_ok_iff.1 ht
    rw [Forest.ofFields_of_not_mem hb, Forest.ofFields_children] at hf
    obtain ⟨f', hf', hr⟩ := hes.exists_ofEntries hf
    refine ⟨⟨t.kind, t.visibility, f'⟩, Tree.ofValue_map_eq_ok_iff.2 ⟨?_, ?_⟩, rfl, rfl, hr⟩
    · rw [← Description.header_reordered hb hes.length_eq, hh]
    · rw [Forest.ofFields_of_not_mem hb, Forest.ofFields_children]
      exact hf'

theorem EntriesReordered.exists_ofEntries {entries entries' : List (String × Value)}
    (h : EntriesReordered entries entries') {path : String} {seen : List String} {f : Forest}
    (hf : Forest.ofEntries path seen entries = .ok f) :
    ∃ f', Forest.ofEntries path seen entries' = .ok f' ∧ f.Reordered f' :=
  match h with
  | .nil => ⟨f, hf, .refl f⟩
  | .cons key hv hr => by
    by_cases hs : key ∈ seen
    · rw [Forest.ofEntries_cons_seen hs] at hf ⊢
      exact hr.exists_ofEntries hf
    · obtain ⟨t, siblings, ht, hsib, rfl⟩ := (Forest.ofEntries_cons_eq_ok_iff hs).1 hf
      obtain ⟨t', ht', h⟩ := hv.exists_ofValue ht
      obtain ⟨siblings', hsib', hr⟩ := hr.exists_ofEntries hsib
      refine ⟨_, (Forest.ofEntries_cons_eq_ok_iff hs).2 ⟨t', siblings', ht', hsib', rfl⟩, ?_⟩
      rw [h.kind, h.visibility]
      exact .cons _ _ _ h.children hr
  | .swap v v' rest hne => Forest.exists_ofEntries_swap hne hf
  | .trans h h' => by
    obtain ⟨f', hf', hr⟩ := h.exists_ofEntries hf
    obtain ⟨f'', hf'', hr'⟩ := h'.exists_ofEntries hf'
    exact ⟨f'', hf'', hr.trans hr'⟩

end

end DataTree
