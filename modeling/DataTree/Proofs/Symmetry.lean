import DataTree.Proofs.Mirror
import DataTree.Proofs.Renamed
import Mathlib.Logic.Equiv.Basic

/-!
# Renaming and symmetry

Resolution compares names with each other and with those of the two sides, and does nothing else
with them. So after a renaming of all children that keeps the names of the sides, each node has the
renamed children, in the same order, and the same defects; and after one that exchanges the names
of the sides, so it is under the policy that exchanges them, too (`build_renamed`).
-/

namespace DataTree

/-- The policy that treats either side as `p` treats the other one. None prefers state and
excludes it. -/
def Policy.exchanged? : Policy → Option Policy
  | uncompressed => some uncompressed
  | uncompressedStateExcluded => some uncompressedStateExcluded
  | compressedPreferConfig => some compressedPreferState
  | compressedPreferState => some compressedPreferConfig
  | compressedStateExcluded => none

theorem Policy.of_exchanged? {p p' : Policy} (h : p.exchanged? = some p') :
    p'.preferred? = p.preferred?.map Side.other ∧ p'.excludesState = p.excludesState := by
  cases p <;> cases h <;> exact ⟨rfl, rfl⟩

/-- The same children under renamed keys, and the same defects of the same nodes, in order. -/
structure ChildSet.Renames (s s' : Schema) (ρ : String → String) (r r' : ChildSet) : Prop where
  children : r'.children = r.children.renamed ρ
  defects : List.Forall₂ (Defect.Alike s s' Eq) r.defects r'.defects

namespace Schema

variable {s s' : Schema} {root n : Nat} {ρ : String → String} {σ : Side → Side} {p p' : Policy}

/-- A number from `root` on, for two schemas that number their nodes alike. -/
def SameNumber (s : Schema) (root i i' : Nat) : Prop :=
  i = i' ∧ root ≤ i ∧ i < s.size

namespace Renames

theorem writable_eq (h : s.Renames root s' ρ) (i : Nat) : s'.writable i = s.writable i := by
  have hnode : ∀ j : Nat, (s.node j).visibility = (s'.node j).visibility ∧
      (s.node j).parent = (s'.node j).parent := fun j => by
    rcases Nat.lt_or_ge j root with hj | hj
    · rw [h.older hj]
      exact ⟨rfl, rfl⟩
    · exact ⟨(h.node hj).visibility.symm, (h.node hj).parent.symm⟩
  rw [writable, writable, h.size]
  refine (writableWithin_congr (R := Eq) ?_ ?_ rfl s.size).symm
  · rintro j _ rfl
    exact (hnode j).1
  · rintro j _ rfl
    rw [(hnode j).2]
    cases (s'.node j).parent with
    | none => exact .none
    | some q => exact .some rfl

/-- A renamed tree mirrors the tree, if the policies go with the names of the sides. -/
theorem mirrors (h : s.Renames root s' ρ) (hw : s.Wired root) (hρ : Function.Injective ρ)
    (hside : ∀ side : Side, ρ side.name = (σ side).name)
    (hp : p'.preferred? = p.preferred?.map σ) (hx : p'.excludesState = p.excludesState) :
    s.Mirrors root s' (Option.map ρ) σ p p' (s.SameNumber root) where
  wired := hw
  size_le := Nat.le_of_eq h.size.symm
  inj := Option.map_injective hρ
  side side := congrArg some (hside side)
  preferred := hp
  range hr := hr.2
  kind := by
    rintro i _ ⟨rfl, hi, -⟩
    exact (h.node hi).kind
  admits := by
    rintro i _ ⟨rfl, -⟩
    rw [Schema.admits, Schema.admits, hx, h.writable_eq]
  children := by
    rintro i _ ⟨rfl, hi, -⟩
    rw [(h.node hi).children, Entries.renamed, Entries.Mirrored, List.forall₂_map_right_iff,
      List.forall₂_same]
    rintro ⟨key, c⟩ hm
    have hc : c ∈ s.children i := Entries.mem_values_of_mem hm
    have hlt := Nat.lt_of_le_of_lt hi (hw.lt_child hi hc)
    exact ⟨rfl, ⟨rfl, Nat.le_of_lt hlt, hw.child_lt_size hi hc⟩, h.name hlt⟩

theorem resolve (h : s.Renames root s' ρ) (hw : s.Wired root) (hρ : Function.Injective ρ)
    (hside : ∀ side : Side, ρ side.name = (σ side).name)
    (hp : p'.preferred? = p.preferred?.map σ) (hx : p'.excludesState = p.excludesState)
    (hn : root ≤ n) (hlt : n < s.size) :
    ChildSet.Renames s s' ρ (s.resolve p n) (s'.resolve p' n) := by
  have hr := (h.mirrors hw hρ hside hp hx).resolve ⟨rfl, hn, hlt⟩
  refine ⟨hr.children.eq_map fun _ _ hx => hx.related.1, hr.defects.imp fun d d' hd => ?_⟩
  cases hd with
  | duplicate hx => exact .duplicate hx.related.1
  | nestedPair hx => exact .nestedPair hx.related.1

end Renames

/-- A renamed description is built under the same numbers, and resolved alike: under each policy
if the names of the sides are kept, and under the exchanged policy if they are exchanged. -/
theorem build_renamed {s₀ : Schema} {description : Value} {name : Name} {parent : Option NodeId}
    (hp : ∀ q : Nat, parent = some q → q < s₀.size)
    (hb : s₀.build description name parent = .ok s) (ρ : Equiv.Perm String) :
    ∃ s', s₀.build (description.renamed ρ) name parent = .ok s' ∧ s.Renames s₀.size s' ρ ∧
      ∀ n ∈ s.subtree s₀.size,
        ((∀ side : Side, ρ side.name = side.name) →
          ∀ p, ChildSet.Renames s s' ρ (s.resolve p n) (s'.resolve p n)) ∧
        ((∀ side : Side, ρ side.name = side.other.name) →
          ∀ p p', p.exchanged? = some p' →
            ChildSet.Renames s s' ρ (s.resolve p n) (s'.resolve p' n)) := by
  obtain ⟨s', hb', h⟩ := exists_renames ρ.injective hb
  have hbuilt : s.IsBuilt s₀.size := ⟨s₀, description, name, parent, hp, hb, rfl⟩
  refine ⟨s', hb', h, fun n hn => ?_⟩
  obtain ⟨hle, hlt⟩ := hbuilt.range_of_mem_subtree hn
  constructor
  · intro hside p
    exact h.resolve hbuilt.wired ρ.injective hside Option.map_id'.symm rfl hle hlt
  · intro hside p p' hpp
    obtain ⟨hpref, hx⟩ := Policy.of_exchanged? hpp
    exact h.resolve hbuilt.wired ρ.injective hside hpref hx hle hlt

/-- Two leaves of the port change names. -/
def leafSwap : Equiv.Perm String :=
  Equiv.swap "mtu" "up"

/-- The sides of the port change names, too. -/
def sideSwap : Equiv.Perm String :=
  leafSwap.trans (Equiv.swap "config" "state")

theorem build_renamed_portDescription :
    empty.build portDescription (some "port") none = .ok portSchema ∧
      0 ∈ portSchema.subtree 0 ∧
      (∀ side : Side, leafSwap side.name = side.name) ∧
      (∃ s', empty.build (portDescription.renamed leafSwap) (some "port") none = .ok s' ∧
        ∀ p, ChildSet.Renames portSchema s' leafSwap (portSchema.resolve p 0) (s'.resolve p 0)) ∧
      (∀ side : Side, sideSwap side.name = side.other.name) ∧
      ∃ s', empty.build (portDescription.renamed sideSwap) (some "port") none = .ok s' ∧
        ChildSet.Renames portSchema s' sideSwap (portSchema.resolve .compressedPreferConfig 0)
          (s'.resolve .compressedPreferState 0) := by
  have hb : empty.build portDescription (some "port") none = .ok portSchema := rfl
  have hn : 0 ∈ portSchema.subtree 0 := by decide
  have hp : ∀ q : Nat, (none : Option NodeId) = some q → q < empty.size := nofun
  have hleaf : ∀ side : Side, leafSwap side.name = side.name := fun side => by
    cases side <;> decide
  have hside : ∀ side : Side, sideSwap side.name = side.other.name := fun side => by
    cases side <;> decide
  obtain ⟨s₁, hb₁, -, h₁⟩ := build_renamed hp hb leafSwap
  obtain ⟨s₂, hb₂, -, h₂⟩ := build_renamed hp hb sideSwap
  exact ⟨hb, hn, hleaf, ⟨s₁, hb₁, (h₁ 0 hn).1 hleaf⟩, hside, s₂, hb₂, (h₂ 0 hn).2 hside _ _ rfl⟩

example : (empty.build (portDescription.renamed sideSwap) (some "port") none).toOption.map
      (fun s' => (s'.resolve .compressedPreferState 0).children.keys) =
    some [some "name", some "up", some "mtu", some "unit"] := by
  cbv

end Schema

end DataTree
