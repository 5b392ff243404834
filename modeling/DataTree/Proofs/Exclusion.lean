import DataTree.Proofs.Collected
import DataTree.Proofs.Inheritance

/-!
# Policies that exclude state

Where state is excluded, a node and its children are looked at before they offer, but the data
nodes that a wrapper or a side offers in its own place are not. So a resolved child is read-only
just when it was declared so on the way down from such a child (`IsBuilt.readOnly_iff_of_resolved`).

`s.ReadOnlyBelow m c`: the nearest declaration at or above `c` and strictly below `m` says
read-only.
-/

namespace DataTree.Schema

structure DeclaresReadOnly (s : Schema) (c e : NodeId) : Prop where
  atOrBelow : s.AtOrBelow e c
  readOnly : (s.node e).visibility = .readOnly
  between : ∀ {e' : NodeId}, s.Below e e' → s.AtOrBelow e' c →
    (s.node e').visibility = .inherited

def ReadOnlyBelow (s : Schema) (m c : NodeId) : Prop :=
  ∃ e, s.Below m e ∧ s.DeclaresReadOnly c e

variable {s : Schema} {root n : Nat} {p : Policy}

/-! ## The nearest declaration -/

namespace Wired

/-- What is declared read-only is read-only. -/
theorem readOnly_of_declares (h : s.Wired root) {e c : Nat} (he : root ≤ e)
    (hd : s.DeclaresReadOnly c e) {depth : Nat} (hlt : c < e + depth) :
    s.writableWithin depth c = false := by
  induction depth generalizing c with
  | zero =>
    have := h.below_le he hd.atOrBelow
    omega
  | succ depth ih =>
    rw [writableWithin_succ_eq_false_iff]
    rcases hd.atOrBelow with rfl | hb
    · exact .inl hd.readOnly
    · obtain ⟨q, hq, hc⟩ := hb.exists_mem
      have hrq := h.root_le_below he hq
      have hqc := h.lt_child hrq hc
      refine .inr ⟨hd.between hb (.inl rfl), q, h.child_parent hrq hc, ?_⟩
      refine ih ⟨hq, hd.readOnly, fun hb' he' => ?_⟩ (by omega)
      exact hd.between hb' (.inr (he'.trans_below (below_child hc)))

/-- What is read-only below a writable node was declared so in between. -/
theorem readOnlyBelow_of_writable (h : s.Wired root) {m c depth : Nat} (hm : root ≤ m)
    (hw : s.writable m = true) (hc : s.AtOrBelow m c) (hle : depth ≤ s.size)
    (hf : s.writableWithin depth c = false) : s.ReadOnlyBelow m c := by
  induction depth generalizing c with
  | zero => cases hf
  | succ depth ih =>
    rcases hc with rfl | hc
    · have := writableWithin_mono hle hf
      rw [writable, this] at hw
      cases hw
    obtain ⟨q, hq, hcq⟩ := hc.exists_mem
    have hrq := h.root_le_below hm hq
    have hrc := h.root_le_child hrq hcq
    rcases writableWithin_succ_eq_false_iff.1 hf with hv | ⟨hv, q', hp, hf⟩
    · refine ⟨c, hc, .inl rfl, hv, fun hce hec => ?_⟩
      have := h.below_le (h.root_le_below hrc (.inr hce)) hec
      have := (h.below_lt hrc hce).1
      omega
    · cases (h.child_parent hrq hcq).symm.trans hp
      obtain ⟨e, he, hd⟩ := ih hq (by omega) hf
      have hre := h.root_le_below hm (.inr he)
      refine ⟨e, he, .inr (hd.atOrBelow.trans_below (below_child hcq)), hd.readOnly, ?_⟩
      intro e' hee hec
      rcases hec with rfl | hec
      · exact hv
      · exact hd.between hee (h.above_child (h.root_le_below hre (.inr hee)) hrq hcq hec)

end Wired

/-! ## Resolved children -/

theorem admits_of_not_excludesState (hp : p.excludesState = false) (i : NodeId) :
    s.admits p i = true := by
  rw [admits, hp]
  rfl

theorem writable_of_admits (hp : p.excludesState = true) {i : Nat} (ha : s.admits p i = true) :
    s.writable i = true := by
  simpa [admits, hp] using ha

/-- The exact condition under which a policy that excludes state returns a read-only node `c`. -/
theorem IsBuilt.readOnly_iff_of_resolved (h : s.IsBuilt root) (hn : n ∈ s.subtree root)
    (hp : p.excludesState = true) {c : NodeId} (hc : c ∈ (s.resolve p n).children.values) :
    s.writable c = false ↔ ∃ m ∈ s.children n, s.ReadOnlyBelow m c ∧
      ((s.node m).kind.isWrapper = true ∨
        p.compresses = true ∧ (s.node m).side?.isSome = true) := by
  have hw := h.wired
  obtain ⟨hrn, -⟩ := h.range_of_mem_subtree hn
  obtain ⟨key, hentry⟩ := Entries.exists_mem_of_mem_values hc
  have hcand := (mem_candidates_of_mem_resolve hentry).1
  have hclt := (hw.below_lt hrn (hw.below_of_mem_candidates hrn hcand)).2
  constructor
  · intro hf
    obtain ⟨m, hm, ha, hroute⟩ := (hw.mem_candidates_iff hrn).1 hcand
    have hm := hw.mem_children_of_considered hrn hm
    have hrm := hw.root_le_child hrn hm
    have hbelow := hw.readOnlyBelow_of_writable hrm (writable_of_admits hp ha) hroute.atOrBelow
      (Nat.le_refl _) hf
    refine ⟨m, hm, hbelow, ?_⟩
    rcases hroute with ⟨-, -, hx⟩ | ⟨hcomp, hs, -, -⟩ | ⟨-, -, -, hadm⟩
    · obtain ⟨e, hme, hd⟩ := hbelow
      exact .inl (hx.between (.inl rfl) (hme.trans_at hd.atOrBelow))
    · exact .inr ⟨hcomp, hs⟩
    · rw [writable_of_admits hp hadm] at hf
      cases hf
  · rintro ⟨m, hm, ⟨e, he, hd⟩, -⟩
    have hre := hw.root_le_below (hw.root_le_child hrn hm) (.inr he)
    exact hw.readOnly_of_declares hre hd (Nat.lt_of_lt_of_le hclt (Nat.le_add_left _ _))

/-- A choice between one read-only leaf and nothing else. -/
def choiceDescription : Value :=
  .map [("children", .map [("pick", .map [("kind", .str "choice"),
    ("children", .map [("total", .map [("config", .bool false)])])])])]

def choiceSchema : Schema :=
  ((empty.build choiceDescription (some "root") none).toOption).getD empty

theorem choiceSchema_isBuilt : choiceSchema.IsBuilt 0 :=
  ⟨empty, choiceDescription, some "root", none, nofun, rfl, rfl⟩

theorem readOnly_iff_of_resolved_choiceSchema :
    2 ∈ (choiceSchema.resolve .uncompressedStateExcluded 0).children.values ∧
      (choiceSchema.writable 2 = false ↔ ∃ m ∈ choiceSchema.children 0,
        choiceSchema.ReadOnlyBelow m 2 ∧ ((choiceSchema.node m).kind.isWrapper = true ∨
          Policy.uncompressedStateExcluded.compresses = true ∧
            (choiceSchema.node m).side?.isSome = true)) := by
  have hc : 2 ∈ (choiceSchema.resolve .uncompressedStateExcluded 0).children.values := by decide
  exact ⟨hc, choiceSchema_isBuilt.readOnly_iff_of_resolved (by decide) (by decide) hc⟩

/-- Policies that exclude state return more than writable nodes. -/
theorem not_writable_of_resolved :
    ¬ ∀ (s : Schema) (root n : NodeId) (p : Policy), s.IsBuilt root → n ∈ s.subtree root →
      p.excludesState = true → ∀ c ∈ (s.resolve p n).children.values, s.writable c = true := by
  intro hall
  have hw := hall choiceSchema 0 0 .uncompressedStateExcluded choiceSchema_isBuilt (by decide)
    (by decide) 2 (by decide)
  exact absurd hw (by decide)

end DataTree.Schema
