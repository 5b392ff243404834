import DataTree.Proofs.Collected

/-!
# Names that come again

Of offers that neither reserve names nor give way, the first under each name is kept and every
other one is on record as a duplicate. `s.repeats taken xs` lists those others, when the names of
`taken` are gone before: what is kept and what comes again are together all of `xs`
(`firsts_append_repeats_perm`), and the record is that of what comes again
(`ChildSet.defects_ofOffers_plain`).

`s.Outrun xs x`: an earlier node of `xs` has the name of `x`. The nodes that come again are just
those (`mem_repeats_iff`).
-/

namespace DataTree

namespace Schema

variable {s : Schema}

/-! ## Nodes under a name that is gone -/

def repeats (s : Schema) (taken : List Name) : List NodeId → List NodeId
  | [] => []
  | x :: xs =>
    if (s.node x).name ∈ taken then x :: s.repeats taken xs
    else s.repeats (taken ++ [(s.node x).name]) xs

def Outrun (s : Schema) (xs : List NodeId) (x : NodeId) : Prop :=
  ∃ y, [y, x].Sublist xs ∧ (s.node y).name = (s.node x).name

theorem repeats_sublist (taken : List Name) (xs : List NodeId) :
    (s.repeats taken xs).Sublist xs := by
  induction xs generalizing taken with
  | nil => exact .slnil
  | cons x xs ih =>
    rw [repeats]
    split
    · exact (ih taken).cons_cons x
    · exact (ih _).cons x

theorem outrun_cons_iff {a x : NodeId} {xs : List NodeId} :
    s.Outrun (a :: xs) x ↔ (x ∈ xs ∧ (s.node a).name = (s.node x).name) ∨ s.Outrun xs x := by
  constructor
  · rintro ⟨y, hs, hn⟩
    rcases List.sublist_cons_iff.1 hs with hs | ⟨t, e, ht⟩
    · exact .inr ⟨y, hs, hn⟩
    · cases e
      exact .inl ⟨List.singleton_sublist.1 ht, hn⟩
  · rintro (⟨hx, hn⟩ | ⟨y, hs, hn⟩)
    · exact ⟨a, (List.singleton_sublist.2 hx).cons_cons a, hn⟩
    · exact ⟨y, hs.cons a, hn⟩

theorem Outrun.mem {x : NodeId} {xs : List NodeId} (h : s.Outrun xs x) : x ∈ xs := by
  obtain ⟨y, hs, -⟩ := h
  exact hs.subset (by simp)

theorem mem_repeats_iff_taken {taken : List Name} {xs : List NodeId} (hn : xs.Nodup)
    {x : NodeId} : x ∈ s.repeats taken xs ↔
      (x ∈ xs ∧ (s.node x).name ∈ taken) ∨ s.Outrun xs x := by
  induction xs generalizing taken with
  | nil =>
    simp only [repeats, List.not_mem_nil, false_and, false_or, false_iff]
    exact fun h => List.not_mem_nil h.mem
  | cons a xs ih =>
    obtain ⟨ha, hn⟩ := List.nodup_cons.1 hn
    rw [repeats, outrun_cons_iff]
    split
    · rename_i htaken
      rw [List.mem_cons, ih hn, List.mem_cons]
      constructor
      · rintro (rfl | ⟨hx, ht⟩ | ho)
        · exact .inl ⟨.inl rfl, htaken⟩
        · exact .inl ⟨.inr hx, ht⟩
        · exact .inr (.inr ho)
      · rintro (⟨rfl | hx, ht⟩ | ⟨hx, hname⟩ | ho)
        · exact .inl rfl
        · exact .inr (.inl ⟨hx, ht⟩)
        · exact .inr (.inl ⟨hx, hname ▸ htaken⟩)
        · exact .inr (.inr ho)
    · rename_i hfree
      rw [ih hn, List.mem_cons, List.mem_append, List.mem_singleton]
      constructor
      · rintro (⟨hx, ht | hname⟩ | ho)
        · exact .inl ⟨.inr hx, ht⟩
        · exact .inr (.inl ⟨hx, hname.symm⟩)
        · exact .inr (.inr ho)
      · rintro (⟨rfl | hx, ht⟩ | ⟨hx, hname⟩ | ho)
        · exact (hfree ht).elim
        · exact .inl ⟨hx, .inl ht⟩
        · exact .inl ⟨hx, .inr hname.symm⟩
        · exact .inr ho

theorem mem_repeats_iff {xs : List NodeId} (hn : xs.Nodup) {x : NodeId} :
    x ∈ s.repeats [] xs ↔ s.Outrun xs x := by
  rw [mem_repeats_iff_taken hn]
  simp

/-! ## What is kept and what is on record -/

theorem foldl_keep_append_repeats_perm (xs : List NodeId) (m : Entries Name NodeId) :
    ((xs.foldl s.keep m).values ++ s.repeats m.keys xs).Perm (m.values ++ xs) := by
  induction xs generalizing m with
  | nil => exact .refl _
  | cons x xs ih =>
    rw [List.foldl_cons, repeats, keep]
    by_cases hx : (s.node x).name ∈ m.keys
    · rw [if_pos hx, Entries.addNew_of_mem hx]
      exact List.perm_middle.trans (((ih m).cons x).trans List.perm_middle.symm)
    · rw [if_neg hx, Entries.addNew_of_not_mem hx]
      have h := ih (m ++ [((s.node x).name, x)])
      simpa [Entries.keys, Entries.values] using h

theorem firsts_append_repeats_perm (xs : List NodeId) :
    ((s.firsts xs).values ++ s.repeats [] xs).Perm xs :=
  foldl_keep_append_repeats_perm xs []

/-- What is kept is what does not come again. -/
theorem mem_values_firsts_iff {xs : List NodeId} (hn : xs.Nodup) {x : NodeId} :
    x ∈ (s.firsts xs).values ↔ x ∈ xs ∧ ¬ s.Outrun xs x := by
  have hperm := firsts_append_repeats_perm (s := s) xs
  have hdisj := List.nodup_append.1 (hperm.nodup_iff.2 hn)
  rw [← mem_repeats_iff hn]
  constructor
  · intro hx
    refine ⟨hperm.subset (List.mem_append_left _ hx), fun hr => ?_⟩
    exact hdisj.2.2 x hx x hr rfl
  · rintro ⟨hx, hr⟩
    exact (List.mem_append.1 (hperm.symm.subset hx)).resolve_right hr

end Schema

namespace Collector

variable {s : Schema} {c : Collector}

theorem defects_foldl_take_plain (xs : List NodeId) :
    ((xs.map Offer.plain).foldl (Collector.take s) c).defects =
      c.defects ++ (s.repeats c.children.keys xs).map (duplicate s) := by
  induction xs generalizing c with
  | nil => simp [Schema.repeats]
  | cons x xs ih =>
    rw [List.map_cons, List.foldl_cons, ih, take_defects, take_plain_children, Schema.keep,
      Schema.repeats, complaints]
    by_cases hx : (s.node x).name ∈ c.children.keys
    · rw [Entries.addNew_of_mem hx, if_pos hx, if_pos hx, List.map_cons, List.append_assoc]
      rfl
    · rw [Entries.addNew_of_not_mem hx, if_neg hx, if_neg hx, List.append_nil, Entries.keys,
        List.map_append]
      rfl

end Collector

/-- The record of plain offers names what comes again. -/
theorem ChildSet.defects_ofOffers_plain {s : Schema} (xs : List NodeId) :
    (ChildSet.ofOffers s (xs.map .plain)).defects =
      (s.repeats [] xs).map (Collector.duplicate s) :=
  Collector.defects_foldl_take_plain xs

end DataTree
