import DataTree.Vocabulary

/-!
# Compression policies

A policy says whether config and state containers are compressed away, which of the two is
preferred then, and whether read-only nodes are left out.
-/

namespace DataTree

/-- The two containers that show the same data: as intended and as applied. -/
inductive Side where
  | config
  | state
  deriving DecidableEq, Repr

namespace Side

def name : Side → String
  | config => "config"
  | state => "state"

def other : Side → Side
  | config => state
  | state => config

def ofName? (s : String) : Option Side :=
  if s = config.name then some config else if s = state.name then some state else none

theorem ofName?_eq_some_iff {s : String} {side : Side} :
    ofName? s = some side ↔ s = side.name := by
  by_cases hc : s = "config"
  · cases side <;> simp [ofName?, name, hc]
  · by_cases hs : s = "state" <;> cases side <;> simp [ofName?, name, hc, hs]

theorem other_other (side : Side) : side.other.other = side := by
  cases side <;> rfl

theorem eq_other_of_ne {own side : Side} (h : own ≠ side) : own = side.other := by
  cases own <;> cases side <;> first | rfl | exact absurd rfl h

end Side

inductive Policy where
  | uncompressed
  | uncompressedStateExcluded
  | compressedPreferConfig
  | compressedPreferState
  | compressedStateExcluded
  deriving DecidableEq, Repr, Inhabited

namespace Policy

instance : Vocabulary Policy where
  title := "CompressionPolicy"
  members := [.uncompressed, .uncompressedStateExcluded, .compressedPreferConfig,
    .compressedPreferState, .compressedStateExcluded]
  word
    | .uncompressed => "uncompressed"
    | .uncompressedStateExcluded => "uncompressed_state_excluded"
    | .compressedPreferConfig => "compressed_prefer_config"
    | .compressedPreferState => "compressed_prefer_state"
    | .compressedStateExcluded => "compressed_state_excluded"
  mem_members a := by cases a <;> simp
  word_inj a b := by cases a <;> cases b <;> simp

/-- The preferred side of a compressing policy. -/
def preferred? : Policy → Option Side
  | uncompressed | uncompressedStateExcluded => none
  | compressedPreferConfig | compressedStateExcluded => some .config
  | compressedPreferState => some .state

def compresses (p : Policy) : Bool :=
  p.preferred?.isSome

def excludesState : Policy → Bool
  | uncompressedStateExcluded | compressedStateExcluded => true
  | _ => false

/-- The policy that a choice of compression and exclusion asks for. -/
def ofChoices (compress excludeState : Bool) : Policy :=
  match compress, excludeState with
  | true, true => compressedStateExcluded
  | true, false => compressedPreferConfig
  | false, true => uncompressedStateExcluded
  | false, false => uncompressed

end Policy

end DataTree
