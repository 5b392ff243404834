import DataTree.Name

/-!
# Names that have no order

A missing name cannot be compared with another one, so names of which one is missing cannot be put
in order. The comparison that fails is fixed by the way in which an order is found. Names are read
in runs: as far as they ascend, or as far as they descend, and if that is less than a given number,
the names after it are inserted until the run has that length. So a missing name is the right one
of the two only if a run starts with it and goes on; anywhere else it is the left one, compared
with a name before it.
-/

namespace DataTree.Name

/-- The least length of a run among `n` names: `n` over the least power of two that makes the
quotient less than 64, rounded up. -/
def leastRun (n : Nat) : Nat :=
  let part := Nat.pow 2 (n.log2 - 5)
  (n + part - 1) / part

/-- How many names go on descending, or ascending, after `last`. -/
def furtherRun (descending : Bool) (last : String) : List Name → Nat
  | some next :: rest =>
    if (next < last) = descending then furtherRun descending next rest + 1 else 0
  | _ => 0

/-- The length of the run that starts with `first`, without insertions. -/
def runLength (first : String) : List Name → Nat
  | some next :: rest => furtherRun (next < first) next rest + 2
  | _ => 1

/-- Whether the missing name is the left one in the comparison that fails, reading the names run by
run; `bound` is at least the number of runs. -/
def missingLeft (least : Nat) : Nat → List Name → Bool
  | 0, _ => true
  | bound + 1, names =>
    match names with
    | [] | [none] => true
    | none :: _ => false
    | some first :: rest =>
      let length := runLength first rest
      let whole := max length least
      if names[length]? = some none || none ∈ names.take whole then true
      else missingLeft least bound (names.drop whole)

/-- Why names have no order: one of several is missing, and whether that is the left one in the
comparison that fails. -/
def disorder? (names : List Name) : Option Bool :=
  if none ∈ names ∧ 1 < names.length then
    some (missingLeft (leastRun names.length) names.length names)
  else none

end DataTree.Name
