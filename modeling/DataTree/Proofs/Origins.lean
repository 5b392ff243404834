import DataTree.Proofs.Exclusion
import DataTree.Proofs.Preferences

/-!
# Where resolved children come from

`s.Descent n ms c`: `c` is strictly below `n`, and `ms` are the nodes in between, from the top. A
tree leaves no choice of them (`Wired.descent_unique`). A policy only passes over some
(`s.PassesOver p c ms`): wrappers and, with compression, a side above them, or a container or list
that has nothing but the list `c`. So no level that carries other data is flattened away
(`IsBuilt.origin_of_resolved`).
-/

namespace DataTree.Schema

inductive Descent (s : Schema) : NodeId → List NodeId → NodeId → Prop where
  | child {n c : NodeId} (hc : c ∈ s.children n) : Descent s n [] c
  | step {n m c : NodeId} {ms : List NodeId} (hm : m ∈ s.children n) (h : Descent s m ms c) :
      Descent s n (m :: ms) c

/-- What a policy may pass over on the way down to `c`. -/
inductive PassesOver (s : Schema) (p : Policy) (c : NodeId) : List NodeId → Prop where
  | wrappers {ws : List NodeId} (hw : ∀ w ∈ ws, (s.node w).kind.isWrapper = true) :
      PassesOver s p c ws
  | side {m : NodeId} {ws : List NodeId} (hp : p.compresses = true)
      (hs : (s.node m).side?.isSome = true) (hw : ∀ w ∈ ws, (s.node w).kind.isWrapper = true) :
      PassesOver s p c (m :: ws)
  | sole {m : NodeId} (hp : p.compresses = true) (hk : (s.node m).kind.isEntity = true)
      (hc : s.children m = [c]) (hl : (s.node c).kind = .list) : PassesOver s p c [m]

/-- Child `c` of `n`, resolved under `key`, is where it should be. -/
structure Origin (s : Schema) (p : Policy) (n : NodeId) (key : Name) (c : NodeId) : Prop where
  name : key = (s.node c).name
  data : (s.node c).kind.isWrapper = false
  descent : ∃ ms, s.Descent n ms c ∧ (∀ ms', s.Descent n ms' c → ms' = ms) ∧ s.PassesOver p c ms ∧
    (p.excludesState = true →
      s.writable n = true ∧ ∀ m, (ms ++ [c]).head? = some m → s.writable m = true)

variable {s : Schema} {root n m c x : Nat} {p : Policy} {ms ms' : List NodeId}

/-! ## Descents -/

theorem below_of_descent (h : s.Descent n ms c) : s.Below n c := by
  induction h with
  | child hc => exact below_child hc
  | step hm _ ih => exact (below_child hm).trans ih

theorem Below.exists_descent (h : s.Below n c) : ∃ ms, s.Descent n ms c := by
  induction h using Relation.TransGen.head_induction_on with
  | single hc => exact ⟨[], .child hc⟩
  | head hm _ ih =>
    obtain ⟨ms, h⟩ := ih
    exact ⟨_, .step hm h⟩

theorem Descent.between (h : s.Descent n ms c) {e : NodeId} (he : e ∈ ms) :
    s.Below n e ∧ s.Below e c := by
  induction h with
  | child => cases he
  | step hm h ih =>
    rcases List.mem_cons.1 he with rfl | he
    · exact ⟨below_child hm, below_of_descent h⟩
    · exact ⟨(below_child hm).trans (ih he).1, (ih he).2⟩

namespace Wired

theorem descent_unique (h : s.Wired root) (hn : root ≤ n) (hd : s.Descent n ms c)
    (hd' : s.Descent n ms' c) : ms' = ms := by
  -- a child of `n` is not below another one
  have hdisj : ∀ {n c m : Nat}, root ≤ n → c ∈ s.children n → m ∈ s.children n →
      ¬ s.Below m c := fun hn hc hm hmc => by
    cases h.siblings_disjoint hn hc hm (.inl rfl) (.inr hmc)
    exact h.below_ne (h.root_le_child hn hm) hmc rfl
  induction hd generalizing ms' with
  | child hc =>
    cases hd' with
    | child => rfl
    | step hm h' => exact (hdisj hn hc hm (below_of_descent h')).elim
  | step hm hd ih =>
    cases hd' with
    | child hc => exact (hdisj hn hc hm (below_of_descent hd)).elim
    | step hm' hd' =>
      cases h.siblings_disjoint hn hm hm' (.inr (below_of_descent hd))
        (.inr (below_of_descent hd'))
      rw [ih (h.root_le_child hn hm) hd']

/-! ## Routes as descents -/

/-- A child exposes what is below wrappers, itself one of them unless it is what it exposes. -/
theorem exists_descent_of_exposes (hm : m ∈ s.children n) (hx : s.Exposes m x) :
    ∃ ws, s.Descent n ws x ∧ (∀ w ∈ ws, (s.node w).kind.isWrapper = true) ∧
      (ws ++ [x]).head? = some m := by
  rcases hx.atOrBelow with rfl | hb
  · exact ⟨[], .child hm, nofun, rfl⟩
  · obtain ⟨ws, hd⟩ := hb.exists_descent
    refine ⟨m :: ws, .step hm hd, fun w hw => ?_, rfl⟩
    rcases List.mem_cons.1 hw with rfl | hw
    · exact hx.between (.inl rfl) hb
    · exact hx.between (.inr (hd.between hw).1) (hd.between hw).2

theorem exists_descent_of_route (hm : m ∈ s.children n) (hr : s.Route p n m x) :
    ∃ ms, s.Descent n ms x ∧ s.PassesOver p x ms ∧ (ms ++ [x]).head? = some m := by
  rcases hr with ⟨-, -, hx⟩ | ⟨hp, hs, hc, hx⟩ | ⟨hp, -, hx, -⟩
  · obtain ⟨ws, hd, hw, hhead⟩ := exists_descent_of_exposes hm hx
    exact ⟨ws, hd, .wrappers hw, hhead⟩
  · obtain ⟨ws, hd, hw, -⟩ := exists_descent_of_exposes hc hx
    exact ⟨m :: ws, .step hm hd, .side hp hs hw, rfl⟩
  · obtain ⟨hdir, hchildren, hlist⟩ := soleList?_eq_some_iff.1 hx
    refine ⟨[m], .step hm (.child (mem_children_of_soleList? hx)), ?_, rfl⟩
    rcases Bool.or_eq_true_iff.1 hdir with hk | hk
    · exact .sole hp hk hchildren hlist
    · exact .wrappers fun w hw => List.mem_singleton.1 hw ▸ hk

end Wired

/-! ## Resolved children -/

/-- Every resolved child comes from below its node, past nothing else than what its policy passes
over. -/
theorem IsBuilt.origin_of_resolved (h : s.IsBuilt root) (hn : n ∈ s.subtree root) {key : Name}
    (hc : (key, c) ∈ (s.resolve p n).children) : s.Origin p n key c := by
  have hw := h.wired
  obtain ⟨hrn, -⟩ := h.range_of_mem_subtree hn
  have hadm : s.admits p n = true := by
    by_contra hna
    rw [resolve_children_eq, if_neg hna] at hc
    cases hc
  obtain ⟨hcand, hname⟩ := mem_candidates_of_mem_resolve hc
  obtain ⟨m, hm, hadm', hroute⟩ := (hw.mem_candidates_iff hrn).1 hcand
  obtain ⟨ms, hd, hover, hhead⟩ :=
    Wired.exists_descent_of_route (hw.mem_children_of_considered hrn hm) hroute
  refine ⟨hname.symm, hroute.data, ms, hd, fun _ hd' => hw.descent_unique hrn hd hd', hover,
    fun hx => ⟨writable_of_admits hx hadm, fun m' hm' => ?_⟩⟩
  cases hhead.symm.trans hm'
  exact writable_of_admits hx hadm'

theorem origin_of_resolved_linkSchema :
    linkSchema.IsBuilt 0 ∧ 0 ∈ linkSchema.subtree 0 ∧
      (some "auto", 9) ∈ (linkSchema.resolve .compressedStateExcluded 0).children ∧
      linkSchema.Origin .compressedStateExcluded 0 (some "auto") 9 := by
  have hn : 0 ∈ linkSchema.subtree 0 := by decide
  have hc : (some "auto", 9) ∈ (linkSchema.resolve .compressedStateExcluded 0).children := by
    decide
  exact ⟨linkSchema_isBuilt, hn, hc, linkSchema_isBuilt.origin_of_resolved hn hc⟩

end DataTree.Schema
