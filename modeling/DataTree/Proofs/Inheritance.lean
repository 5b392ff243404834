import DataTree.Proofs.Planted
import Mathlib.Data.Fintype.Card

/-!
# Inherited visibility

The effective visibility of a node is what it declares or, if it declares nothing, that of its
parent (`writable_eq`). The search goes up no further than there are nodes, and no search needs to:
the nodes on the way to the nearest declaration differ, even where references lead back
(`writableWithin_eq`).
-/

namespace DataTree

/-- What a declaration makes of the visibility above it. -/
def Visibility.effective (above : Bool) : Visibility → Bool
  | writable => true
  | readOnly => false
  | inherited => above

namespace Schema

variable {s : Schema}

theorem writableWithin_succ (depth : Nat) (i : NodeId) : s.writableWithin (depth + 1) i =
    (s.node i).visibility.effective ((s.node i).parent.elim true (s.writableWithin depth)) := by
  rw [writableWithin]
  cases (s.node i).visibility with
  | writable => rfl
  | readOnly => rfl
  | inherited => cases (s.node i).parent <;> rfl

theorem writableWithin_succ_eq_false_iff {depth i : Nat} :
    s.writableWithin (depth + 1) i = false ↔ (s.node i).visibility = .readOnly ∨
      (s.node i).visibility = .inherited ∧
        ∃ q, (s.node i).parent = some q ∧ s.writableWithin depth q = false := by
  rw [writableWithin]
  cases (s.node i).visibility with
  | writable => simp
  | readOnly => simp
  | inherited => cases (s.node i).parent <;> simp

/-- A declaration that was found is found again by looking further. -/
theorem writableWithin_mono {depth depth' i : Nat} (hle : depth ≤ depth')
    (h : s.writableWithin depth i = false) : s.writableWithin depth' i = false := by
  induction depth generalizing depth' i with
  | zero => cases h
  | succ depth ih =>
    obtain ⟨depth', rfl⟩ : ∃ k, depth' = k + 1 := ⟨depth' - 1, by omega⟩
    rw [writableWithin_succ_eq_false_iff] at h ⊢
    refine h.imp_right fun ⟨hv, q, hq, hf⟩ => ⟨hv, q, hq, ih (by omega) hf⟩

/-! ## How far a search goes -/

theorem lt_size_of_readOnly {depth i : Nat} (h : s.writableWithin depth i = false) :
    i < s.size := by
  by_contra hge
  have habsent : s.node i = .absent := node_of_size_le (Nat.le_of_not_lt hge)
  cases depth with
  | zero => cases h
  | succ depth => simp [writableWithin, habsent, Node.absent] at h

/-- A declaration that is found late is found at each lesser depth from some node. -/
theorem exists_found_at {depth i : Nat} (hf : s.writableWithin (depth + 1) i = false)
    (ht : s.writableWithin depth i = true) {k : Nat} (hk : k ≤ depth) :
    ∃ j : Fin s.size, s.writableWithin (k + 1) j = false ∧ s.writableWithin k j = true := by
  induction depth generalizing i with
  | zero =>
    cases Nat.le_zero.1 hk
    exact ⟨⟨i, lt_size_of_readOnly hf⟩, hf, ht⟩
  | succ depth ih =>
    rcases Nat.eq_or_lt_of_le hk with rfl | hk
    · exact ⟨⟨i, lt_size_of_readOnly hf⟩, hf, ht⟩
    rw [← Bool.not_eq_false, writableWithin_succ_eq_false_iff] at ht
    rcases writableWithin_succ_eq_false_iff.1 hf with hv | ⟨hv, q, hq, hfq⟩
    · exact (ht (.inl hv)).elim
    · refine ih hfq ?_ (Nat.le_of_lt_succ hk)
      rw [← Bool.not_eq_false]
      exact fun hfq' => ht (.inr ⟨hv, q, hq, hfq'⟩)

/-- So it is found no later than there are nodes. -/
theorem lt_size_of_found_at {depth i : Nat} (hf : s.writableWithin (depth + 1) i = false)
    (ht : s.writableWithin depth i = true) : depth < s.size := by
  have hat : ∀ k : Fin (depth + 1), ∃ j : Fin s.size,
      s.writableWithin (k + 1) j = false ∧ s.writableWithin k j = true := fun k =>
    exists_found_at hf ht (Nat.le_of_lt_succ k.2)
  choose node hfound hnot using hat
  -- the nodes for two depths differ, as what is found at the lesser one is found at the other
  have hle : ∀ {k k' : Fin (depth + 1)}, node k = node k' → k'.1 ≤ k.1 := fun {k k'} e => by
    by_contra hlt
    have hmono := writableWithin_mono (Nat.lt_of_not_le hlt) (e ▸ hfound k)
    rw [hnot k'] at hmono
    cases hmono
  have hinj : Function.Injective node := fun k k' e =>
    Fin.ext (Nat.le_antisymm (hle e.symm) (hle e))
  have hcard := Fintype.card_le_of_injective node hinj
  rw [Fintype.card_fin, Fintype.card_fin] at hcard
  exact hcard

/-- Looking further than there are nodes finds nothing more. -/
theorem writableWithin_eq {depth : Nat} (hle : s.size ≤ depth) (i : NodeId) :
    s.writableWithin depth i = s.writable i := by
  induction depth, hle using Nat.le_induction with
  | base => rfl
  | succ depth hle ih =>
    rw [← ih]
    by_contra hne
    cases ht : s.writableWithin depth i with
    | false => exact hne ((writableWithin_mono (Nat.le_succ _) ht).trans ht.symm)
    | true =>
      rw [ht, Bool.not_eq_true] at hne
      exact Nat.not_le_of_lt (lt_size_of_found_at hne ht) hle

/-- A node has the visibility that it declares, or that of its parent. -/
theorem writable_eq (s : Schema) (i : NodeId) : s.writable i =
    (s.node i).visibility.effective ((s.node i).parent.elim true s.writable) := by
  rw [← writableWithin_eq (Nat.le_succ _), writableWithin_succ]
  rfl

end Schema

end DataTree
