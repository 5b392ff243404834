import DataTree.Yang.Node
import Mathlib.Tactic.SplitIfs

/-!
# Classes and kinds

What is known of the classes of schema nodes is `NodeClass.Lawful`: operations and notifications are
schema trees, and anydata and anyxml nodes are any-content nodes.

`h.Suits kind` lists the families that are of a kind in the data tree. A node may suit several
kinds; it is mapped to the first of them in the order `Kind.rank`, unless it is an operation or a
notification (`Header.Maps`). This is what asking for one family after the other comes to
(`Header.kind?_eq_some_iff`).
-/

namespace DataTree

/-- Containers before lists, then choices, cases and leaves, references first. -/
def Kind.rank : Kind → Nat
  | container => 0
  | list => 1
  | choice => 2
  | case => 3
  | leafref => 4
  | leaf => 5

theorem Kind.rank_inj {kind kind' : Kind} (h : kind.rank = kind'.rank) : kind = kind' := by
  cases kind <;> cases kind' <;> first | rfl | cases h

namespace Yang

structure NodeClass.Lawful (c : NodeClass) : Prop where
  rpcAction : c.isA .rpcAction → c.isA .schemaTree
  notification : c.isA .notification → c.isA .schemaTree
  anydata : c.isA .anydata → c.isA .anyContent
  anyxml : c.isA .anyxml → c.isA .anyContent

instance (c : NodeClass) : Decidable c.Lawful :=
  decidable_of_iff ((c.isA .rpcAction → c.isA .schemaTree) ∧
      (c.isA .notification → c.isA .schemaTree) ∧ (c.isA .anydata → c.isA .anyContent) ∧
      (c.isA .anyxml → c.isA .anyContent))
    ⟨fun h => ⟨h.1, h.2.1, h.2.2.1, h.2.2.2⟩, fun h => ⟨h.1, h.2, h.3, h.4⟩⟩

namespace Header

/-- A schema tree that is neither an operation nor a notification. -/
structure IsPlainTree (h : Header) : Prop where
  isA : h.isA .schemaTree
  not_rpcAction : ¬h.isA .rpcAction
  not_notification : ¬h.isA .notification

instance (h : Header) : Decidable h.IsPlainTree :=
  decidable_of_iff (h.isA .schemaTree ∧ ¬h.isA .rpcAction ∧ ¬h.isA .notification)
    ⟨fun hh => ⟨hh.1, hh.2.1, hh.2.2⟩, fun hh => ⟨hh.1, hh.2, hh.3⟩⟩

/-- The families with the kinds of their nodes. -/
inductive Suits (h : Header) : Kind → Prop
  | schemaTree : h.isA .schemaTree → h.Suits .container
  | container : h.isA .container → h.Suits .container
  | list : h.isA .list → h.Suits .list
  | choice : h.isA .choice → h.Suits .choice
  | case : h.isA .case → h.Suits .case
  | leafref : h.isA .leaf → h.leafref = true → h.Suits .leafref
  | leaf : h.isA .leaf → h.leafref = false → h.Suits .leaf
  | leafList : h.isA .leafList → h.Suits .leaf
  | anydata : h.isA .anydata → h.Suits .leaf
  | anyxml : h.isA .anyxml → h.Suits .leaf
  | anyContent : h.isA .anyContent → h.Suits .leaf

/-- The node is in the data tree, as a node of this kind. -/
structure Maps (h : Header) (kind : Kind) : Prop where
  not_rpcAction : ¬h.isA .rpcAction
  not_notification : ¬h.isA .notification
  suits : h.Suits kind
  first : ∀ other, h.Suits other → kind.rank ≤ other.rank

/-- Nodes of these families have no children. -/
def isTerminal (h : Header) : Bool :=
  h.isA .leaf || h.isA .leafList || h.isA .anyContent

variable {h : Header} {kind other : Kind}

theorem IsPlainTree.maps (ht : h.IsPlainTree) : h.Maps .container :=
  ⟨ht.not_rpcAction, ht.not_notification, .schemaTree ht.isA, fun _ _ => Nat.zero_le _⟩

theorem IsPlainTree.localName (ht : h.IsPlainTree) : h.localName = some "" :=
  if_pos ht.isA

/-! ## Asking in order -/

theorem not_operation_of_kind? (hk : h.kind? = some kind) :
    ¬h.isA .rpcAction ∧ ¬h.isA .notification := by
  rw [← not_or, ← Bool.or_eq_true]
  intro hop
  rw [kind?, if_pos hop] at hk
  cases hk

theorem suits_of_kind? (hk : h.kind? = some kind) : h.Suits kind := by
  unfold kind? at hk
  split_ifs at hk with hop htree hlist hchoice hcase href hleaf <;> cases hk
  · rcases (Bool.or_eq_true _ _).mp htree with ht | hc
    · exact .schemaTree ht
    · exact .container hc
  · exact .list hlist
  · exact .choice hchoice
  · exact .case hcase
  · rw [Bool.and_eq_true] at href
    exact .leafref href.1 href.2
  · rw [Bool.or_eq_true, Bool.or_eq_true] at hleaf
    rcases hleaf with (hl | hl) | hc
    · exact .leaf hl (by simpa [hl] using href)
    · exact .leafList hl
    · exact .anyContent hc

/-- The answer comes no later than any kind that the node suits. -/
theorem Suits.exists_kind? (hs : h.Suits other) (hl : h.nodeClass.Lawful)
    (hr : ¬h.isA .rpcAction) (hn : ¬h.isA .notification) :
    ∃ kind, h.kind? = some kind ∧ kind.rank ≤ other.rank := by
  have hany : h.isA .anydata ∨ h.isA .anyxml → h.isA .anyContent := fun ha =>
    ha.elim hl.anydata hl.anyxml
  unfold kind?
  rw [if_neg (by simp [hr, hn])]
  -- a question answered with yes comes early enough, and those before it rule out their families
  split_ifs <;> cases hs <;> simp_all [Kind.rank]

theorem kind?_eq_some_iff (hl : h.nodeClass.Lawful) : h.kind? = some kind ↔ h.Maps kind := by
  constructor
  · intro hk
    obtain ⟨hr, hn⟩ := not_operation_of_kind? hk
    refine ⟨hr, hn, suits_of_kind? hk, fun other hs => ?_⟩
    obtain ⟨kind', hk', hle⟩ := hs.exists_kind? hl hr hn
    cases hk.symm.trans hk'
    exact hle
  · intro hm
    obtain ⟨kind', hk', hle⟩ := hm.suits.exists_kind? hl hm.not_rpcAction hm.not_notification
    rw [hk', Kind.rank_inj (Nat.le_antisymm hle (hm.first kind' (suits_of_kind? hk')))]

theorem kind?_eq_none_iff (hl : h.nodeClass.Lawful) : h.kind? = none ↔ ∀ kind, ¬h.Maps kind := by
  rw [Option.eq_none_iff_forall_ne_some]
  exact forall_congr' fun kind => not_congr (kind?_eq_some_iff hl)

/-- Only the kinds of terminal nodes are without children. -/
theorem Suits.isTerminal (hs : h.Suits kind) (hl : h.nodeClass.Lawful)
    (hd : kind.isDirectory = false) : h.isTerminal = true := by
  cases hs with
  | schemaTree _ | container _ | list _ | choice _ | case _ => cases hd
  | leafref hf _ | leaf hf _ | leafList hf | anyContent hf => simp [Header.isTerminal, hf]
  | anydata hf =>
    have hany : h.isA .anyContent := hl.anydata hf
    simp [Header.isTerminal, hany]
  | anyxml hf =>
    have hany : h.isA .anyContent := hl.anyxml hf
    simp [Header.isTerminal, hany]

end Header

/-- A node as its classes are: it has no children if it is terminal. -/
structure Node.Lawful (m : Node) : Prop where
  nodeClass : m.header.nodeClass.Lawful
  bare : m.header.isTerminal = true → m.children = .nil

instance (m : Node) : Decidable m.Lawful :=
  decidable_of_iff (m.header.nodeClass.Lawful ∧ (m.header.isTerminal = true → m.children = .nil))
    ⟨fun h => ⟨h.1, h.2⟩, fun h => ⟨h.nodeClass, h.bare⟩⟩

end Yang

end DataTree
