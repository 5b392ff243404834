import DataTree.Proofs.Paths
import DataTree.Proofs.Standing

/-!
# Sides among the resolved children

With compression a side is to make way for its members. One that lies directly in another side is a
resolved child all the same, and then that is on record. One that a choice or case stands for is a
resolved child as well, and nothing is on record: neither its parent nor what offers it looks at it
(`IsBuilt.unreported_iff_of_side`).
-/

namespace DataTree.Schema

open Defect (nestedPairs)

variable {s : Schema} {root n : Nat} {p : Policy}

/-! ## Notes about nested sides -/

theorem nested_mem_liftedOffers_iff {preferred : Bool} {m c : Nat} :
    .nested c ∈ s.liftedOffers preferred m ↔
      c ∈ s.children m ∧ (s.node c).side?.isSome = true := by
  rw [liftedOffers, List.mem_flatMap]
  constructor
  · rintro ⟨c', hc', ho⟩
    rcases List.mem_append.1 ho with ho | ho
    · split at ho
      · rename_i hs
        cases List.mem_singleton.1 ho
        exact ⟨hc', hs⟩
      · cases ho
    · obtain ⟨x, -, e⟩ := List.mem_map.1 ho
      cases preferred <;> cases e
  · rintro ⟨hc, hs⟩
    refine ⟨c, hc, List.mem_append_left _ ?_⟩
    rw [if_pos hs]
    exact List.mem_singleton_self _

/-- Only sides note what lies directly in them. -/
theorem nested_mem_compressedOffers_iff {side : Side} {m c : Nat} :
    .nested c ∈ s.compressedOffers p side n m ↔ s.admits p m = true ∧
      (s.node m).side?.isSome = true ∧ c ∈ s.children m ∧ (s.node c).side?.isSome = true := by
  unfold compressedOffers
  cases s.admits p m with
  | false => simp
  | true =>
    cases (s.node m).side? with
    | some own => simp [nested_mem_liftedOffers_iff]
    | none =>
      cases s.soleList? m with
      | some inner => cases ha : s.admits p inner <;> simp [ha]
      | none => cases s.isKeyReference n m <;> simp [plainOffers]

theorem nested_mem_given_iff (hp : p.compresses = true) {c : Nat} :
    .nested c ∈ s.given p n ↔ s.admits p n = true ∧ ∃ m ∈ s.considered p n,
      s.admits p m = true ∧ (s.node m).side?.isSome = true ∧ c ∈ s.children m ∧
        (s.node c).side?.isSome = true := by
  obtain ⟨side, hside⟩ := Option.isSome_iff_exists.1 hp
  unfold given
  cases s.admits p n with
  | false => simp
  | true =>
    simp only [if_true, offers_eq_flatMap, List.mem_flatMap, childOffers, hside,
      nested_mem_compressedOffers_iff, true_and]

theorem Wired.nestedPair_mem_defects_iff (h : s.Wired root) (hn : root ≤ n) {c : Nat} :
    Collector.nestedPair s c ∈ (s.resolve p n).defects ↔
      ∃ c', .nested c' ∈ s.given p n ∧ Collector.nestedPair s c' = Collector.nestedPair s c := by
  have hmem : Collector.nestedPair s c ∈ (s.resolve p n).defects ↔
      Collector.nestedPair s c ∈ nestedPairs (s.resolve p n).defects := by
    rw [Defect.mem_nestedPairs_iff]
    exact (and_iff_left rfl).symm
  rw [hmem, h.nestedPairs_resolve p hn, List.mem_filterMap]
  constructor
  · rintro ⟨o, ho, e⟩
    cases o with
    | nested c' => exact ⟨c', ho, Option.some.inj e⟩
    | _ => cases e
  · rintro ⟨c', ho, e⟩
    exact ⟨_, ho, congrArg some e⟩

/-! ## Sides that are offered -/

theorem isWrapper_of_side {i : Nat} (hs : (s.node i).side?.isSome = true) :
    (s.node i).kind.isWrapper = false := by
  obtain ⟨side, hside⟩ := Option.isSome_iff_exists.1 hs
  rw [(Node.side?_eq_some_iff.1 hside).1]
  rfl

/-- What is exposed from above has a wrapper for its parent. -/
theorem Exposes.exists_wrapper {i x : Nat} (hx : s.Exposes i x) (hne : x ≠ i) :
    ∃ q : Nat, s.AtOrBelow i q ∧ x ∈ s.children q ∧ (s.node q).kind.isWrapper = true := by
  obtain ⟨q, hq, hxq⟩ := (hx.atOrBelow.resolve_left hne).exists_mem
  exact ⟨q, hq, hxq, hx.between hq (below_child hxq)⟩

/-- A side is offered from inside a wrapper, or as a member of a side. -/
theorem Route.wrapped_or_member {m c : Nat} (hr : s.Route p n m c) (hp : p.compresses = true)
    (hs : (s.node c).side?.isSome = true) :
    (∃ q : Nat, s.AtOrBelow m q ∧ c ∈ s.children q ∧ (s.node q).kind.isWrapper = true) ∨
      (s.node m).side?.isSome = true ∧ c ∈ s.children m := by
  rcases hr with ⟨he, -, hx⟩ | ⟨-, hm, hc, hx⟩ | ⟨-, -, hx, -⟩
  · refine .inl (hx.exists_wrapper ?_)
    rintro rfl
    simp [elides, hp, hs] at he
  · rename_i c'
    by_cases e : c = c'
    · exact .inr ⟨hm, e ▸ hc⟩
    · obtain ⟨q, hq, hcq, hw⟩ := hx.exists_wrapper e
      exact .inl ⟨q, .inr ((below_child hc).trans_at hq), hcq, hw⟩
  · obtain ⟨side, hside⟩ := Option.isSome_iff_exists.1 hs
    have hkind := (Node.side?_eq_some_iff.1 hside).1
    rw [(soleList?_eq_some_iff.1 hx).2.2] at hkind
    cases hkind

/-- Nothing is on record about a side inside a wrapper: a note names a member of a side, and the
path of that side leads nowhere else. -/
theorem IsBuilt.unreported_of_wrapper (h : s.IsBuilt root) (hp : p.compresses = true)
    (hn : root ≤ n) {q c : Nat} (hq : s.Below n q) (hc : c ∈ s.children q)
    (hw : (s.node q).kind.isWrapper = true) :
    Collector.nestedPair s c ∉ (s.resolve p n).defects := by
  rw [h.wired.nestedPair_mem_defects_iff hn]
  rintro ⟨c', ho, e⟩
  obtain ⟨-, m, hm, -, hside, hc', -⟩ := (nested_mem_given_iff hp).1 ho
  have hm := h.wired.mem_children_of_considered hn hm
  have hrm := h.wired.root_le_child hn hm
  have hrq := h.wired.root_le_below hn (.inr hq)
  have hpath : (s.node c').path = (s.node c).path := congrArg Defect.path e
  have hname : (s.node c').name = (s.node c).name := congrArg Defect.name e
  rw [h.path_child hrm hc', h.path_child hrq hc, hname] at hpath
  have hmq := Path.child_left_inj hpath
  rw [h.path_child hn hm] at hmq
  have hslash : '/' ∉ (s.node m).name.text.toList := by
    obtain ⟨side, hs⟩ := Option.isSome_iff_exists.1 hside
    rw [(Node.side?_eq_some_iff.1 hs).2]
    cases side <;> decide
  obtain ⟨hqn, htext⟩ := h.mem_children_of_path hn hq hslash hmq.symm
  cases h.child_inj hn hqn hm htext
  simp [isWrapper_of_side hside] at hw

/-- The exact condition under which a side is a resolved child without being on record. -/
theorem IsBuilt.unreported_iff_of_side (h : s.IsBuilt root) (hn : n ∈ s.subtree root)
    (hp : p.compresses = true) {c : NodeId} (hc : c ∈ (s.resolve p n).children.values)
    (hs : (s.node c).side?.isSome = true) :
    Collector.nestedPair s c ∉ (s.resolve p n).defects ↔
      ∃ q, s.Below n q ∧ c ∈ s.children q ∧ (s.node q).kind.isWrapper = true := by
  have hw := h.wired
  obtain ⟨hrn, -⟩ := h.range_of_mem_subtree hn
  constructor
  · intro hnote
    obtain ⟨key, hentry⟩ := Entries.exists_mem_of_mem_values hc
    obtain ⟨m, hm, ha, hroute⟩ :=
      (hw.mem_candidates_iff hrn).1 (mem_candidates_of_mem_resolve hentry).1
    have hmn := hw.mem_children_of_considered hrn hm
    rcases hroute.wrapped_or_member hp hs with ⟨q, hq, hcq, hwrap⟩ | ⟨hside, hcm⟩
    · exact ⟨q, (below_child hmn).trans_at hq, hcq, hwrap⟩
    · have hadm : s.admits p n = true := by
        by_contra hna
        rw [resolve_children_eq, if_neg hna] at hentry
        cases hentry
      refine (hnote ?_).elim
      rw [hw.nestedPair_mem_defects_iff hrn]
      exact ⟨c, (nested_mem_given_iff hp).2 ⟨hadm, m, hm, ha, hside, hcm, hs⟩, rfl⟩
  · rintro ⟨q, hq, hcq, hwrap⟩
    exact h.unreported_of_wrapper hp hrn hq hcq hwrap

/-- A choice that stands for a side. -/
def forkDescription : Value :=
  .map [("children", .map [("pick", .map [("kind", .str "choice"),
    ("children", .map [("config", .map [("children", .map [("mtu", .map [])])])])])])]

def forkSchema : Schema :=
  ((empty.build forkDescription (some "root") none).toOption).getD empty

theorem forkSchema_isBuilt : forkSchema.IsBuilt 0 :=
  ⟨empty, forkDescription, some "root", none, nofun, rfl, rfl⟩

theorem unreported_iff_of_side_forkSchema :
    2 ∈ (forkSchema.resolve .compressedPreferConfig 0).children.values ∧
      (forkSchema.node 2).side?.isSome = true ∧
      (Collector.nestedPair forkSchema 2 ∉
          (forkSchema.resolve .compressedPreferConfig 0).defects ↔
        ∃ q, forkSchema.Below 0 q ∧ 2 ∈ forkSchema.children q ∧
          (forkSchema.node q).kind.isWrapper = true) := by
  have hc : 2 ∈ (forkSchema.resolve .compressedPreferConfig 0).children.values := by decide
  have hs : (forkSchema.node 2).side?.isSome = true := by decide
  exact ⟨hc, hs, forkSchema_isBuilt.unreported_iff_of_side (by decide) (by decide) hc hs⟩

/-- Compression leaves sides behind without a word. -/
theorem not_sideless_of_resolved :
    ¬ ∀ (s : Schema) (root n : NodeId) (p : Policy), s.IsBuilt root → n ∈ s.subtree root →
      p.compresses = true → (s.resolve p n).defects = [] →
      ∀ c ∈ (s.resolve p n).children.values, (s.node c).side? = none := by
  intro hall
  have hside := hall forkSchema 0 0 .compressedPreferConfig forkSchema_isBuilt (by decide)
    (by decide) (by decide) 2 (by decide)
  exact absurd hside (by decide)

end DataTree.Schema
