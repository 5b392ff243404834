import DataTree.Proofs.Steps
import Mathlib.Tactic

/-!
# Walks among other commands

Other commands may come between the advances of a walk: walks under other labels, questions of any
sort, new nodes, and changes of the children of nodes that the walk has shown. `w.Spares label done
cs` says that `cs` are such commands, where `done` are the nodes shown before.

None of this shows in the walk. `w.Follows s p r label k` is what all such commands keep: the
schema is `s` but for the children of the first `k` entities, and the walk is where it would be in
`s` after `k` visits. So its advances come to the same as they do alone (`IsBuilt.walk_isolated`).
-/

namespace DataTree

/-! ## Commands and a walk -/

/-- The command goes on with the walk of that label. -/
def Command.advances (label : String) : Command → Bool
  | .advance other _ => other = label
  | _ => false

/-- How many visits the command asks of the walk of that label. -/
def Command.asks (label : String) : Command → Nat
  | .advance other count => if other = label then count else 0
  | _ => 0

/-- The command does not replace the walk of that label, and changes at most the children of a
node in `done`. -/
def Command.Spares (w : Workspace) (label : String) (done : List NodeId) : Command → Prop
  | .attach parent _ _ | .detach parent _ => ∀ i ∈ w.nodes.get? parent, i ∈ done
  | .edit _ _ => False
  | .walk other _ _ => other ≠ label
  | _ => True

instance (w : Workspace) (label : String) (done : List NodeId) :
    (c : Command) → Decidable (c.Spares w label done)
  | .attach parent _ _ | .detach parent _ =>
    inferInstanceAs (Decidable (∀ i ∈ w.nodes.get? parent, i ∈ done))
  | .edit .. => .isFalse id
  | .walk other _ _ => inferInstanceAs (Decidable (other ≠ label))
  | .create .. | .build .. | .locate .. | .inspect .. | .dump .. | .print .. | .same ..
  | .frontier .. | .resolve .. | .plan .. | .resolveWith .. | .flatten .. | .findDefects ..
  | .advance .. => .isTrue trivial

namespace Workspace

/-- What a step shows of the walk of that label. -/
def Step.visitsOf (label : String) (step : Step) : List Visit :=
  match step.command.advances label, step.reply.outcome with
  | true, .ok (.visits made _) => made
  | _, _ => []

/-- What comes of the steps of the walk of that label. -/
def outcomesOf (label : String) (steps : List Step) : List (Except Fault Reply) :=
  (steps.filter fun step => step.command.advances label).map fun step => step.reply.outcome

/-- Each command spares the walk and the nodes that it has not shown by then. -/
def Spares (label : String) (w : Workspace) (done : List NodeId) : List Command → Prop
  | [] => True
  | c :: cs => c.Spares w label done ∧
      Spares label (w.step c).after (done ++ ((w.step c).visitsOf label).map Visit.node) cs

instance Spares.decidable (label : String) :
    (w : Workspace) → (done : List NodeId) → (cs : List Command) →
      Decidable (w.Spares label done cs)
  | _, _, [] => .isTrue trivial
  | w, done, c :: cs =>
    have := Spares.decidable label (w.step c).after
      (done ++ ((w.step c).visitsOf label).map Visit.node) cs
    inferInstanceAs (Decidable (c.Spares w label done ∧ _))

/-- The walk of that label has made `k` visits, and stands as if the schema still were `s`. -/
structure Follows (w : Workspace) (s : Schema) (p : Policy) (r : NodeId) (label : String)
    (k : Nat) : Prop where
  altered : s.Altered ((s.entities p r).take k) w.schema
  walk : w.walks.get? label = some ((Walk.start p r).take s k).later

variable {w w₀ after : Workspace} {s : Schema} {p : Policy} {root r k : Nat} {label : String}

theorem command_step (w : Workspace) (c : Command) : (w.step c).command = c := by
  rw [step]
  split <;> rfl

theorem outcomesOf_run_cons (w : Workspace) (c : Command) (cs : List Command) :
    outcomesOf label (w.run (c :: cs)) = if c.advances label then
      (w.step c).reply.outcome :: outcomesOf label ((w.step c).after.run cs)
      else outcomesOf label ((w.step c).after.run cs) := by
  rw [outcomesOf, Workspace.run, List.filter_cons, command_step]
  split <;> rfl

theorem exists_eq_advance {c : Command} (h : c.advances label = true) :
    ∃ count, c = .advance label count := by
  cases c with
  | advance other count => exact ⟨count, by rw [of_decide_eq_true h]⟩
  | _ => cases h

theorem asks_eq_zero {c : Command} (h : c.advances label = false) : c.asks label = 0 := by
  cases c with
  | advance other count => exact if_neg (of_decide_eq_false h)
  | _ => rfl

theorem step_of_ok {c : Command} {reply : Reply} (h : (w.exec c).outcome = .ok (reply, after)) :
    (w.step c).reply.outcome = .ok reply ∧ (w.step c).after = after := by
  rw [step]
  split
  · rename_i h'
    cases h.symm.trans h'
    exact ⟨rfl, rfl⟩
  · rename_i h'
    cases h.symm.trans h'

namespace Follows

/-! ## One step -/

/-- A command that is no advance of the walk leaves it where it is. -/
theorem move (h : w.Follows s p r label k) {c : Command} (hm : w.Moves c after)
    (hc : c.Spares w label ((s.entities p r).take k)) (hne : c.advances label = false) :
    after.Follows s p r label k := by
  have hother : ∀ {other : String} {walk : Walk}, other ≠ label →
      (w.addWalk other walk).Follows s p r label k := fun hne =>
    ⟨h.altered, by rw [addWalk, Entries.get?_put, if_neg hne]; exact h.walk⟩
  cases hm with
  | none | locate _ _ | plan _ => exact ⟨h.altered, h.walk⟩
  | create _ _ _ => exact ⟨h.altered.trans_extends (Schema.extends_push _ _), h.walk⟩
  | build _ hb =>
    obtain ⟨t, -, rfl⟩ := Schema.build_eq_ok_iff.1 hb
    exact ⟨h.altered.trans_extends (Schema.extends_plant _ t _ _ _), h.walk⟩
  | attach hi _ => exact ⟨h.altered.modify (hc _ hi) _, h.walk⟩
  | detach hi _ => exact ⟨h.altered.modify (hc _ hi) _, h.walk⟩
  | edit _ _ => exact hc.elim
  | walk _ _ => exact hother hc
  | advance _ _ => exact hother (of_decide_eq_false hne)

variable (hcl : s.Closed) (hw : s.Wired root) (hr : root ≤ r) (hlt : r < s.size)
include hcl hw hr hlt

/-- An advance makes the next visits of the walk in `s`. -/
theorem advance (h : w.Follows s p r label k) (count : Nat) :
    let made := (((s.entities p r).drop k).take count).map (s.visit p)
    (w.step (.advance label count)).reply.outcome =
        .ok (.visits made (made.length < count)) ∧
      (w.step (.advance label count)).after.Follows s p r label (k + count) := by
  intro made
  obtain ⟨hrem, hwithin, hpol⟩ := hw.remaining_take k (Walk.within_start p hr hlt)
  rw [Walk.remaining_start] at hrem
  have htake := h.altered.take_eq hcl hw hr hlt count
  have hmade : (((Walk.start p r).take s k).later.take w.schema count).shown = made := by
    rw [htake, hw.take_eq count hwithin, hrem, hpol]
    rfl
  have hexec : (w.exec (.advance label count)).outcome = .ok (.visits made (made.length < count),
      if count = 0 then w
      else w.addWalk label (((Walk.start p r).take s k).later.take w.schema count).later) := by
    rw [exec, Traced.bind_outcome, advance_outcome h.walk, hmade]
    rfl
  obtain ⟨hreply, hafter⟩ := step_of_ok hexec
  refine ⟨hreply, ?_⟩
  rw [hafter]
  split
  · rename_i hcount
    rwa [hcount]
  · refine ⟨h.altered.mono (List.take_subset_take_left _ (Nat.le_add_right k count)), ?_⟩
    rw [addWalk, Entries.get?_put, if_pos rfl, htake, Walk.take_add]

/-! ## Runs -/

/-- Two workspaces that follow the walk alike: its advances come to the same in a run of one, with
other commands in between, and in a run of the other without them. They show the visits that come
next, as many as they ask for. -/
theorem run (h : w.Follows s p r label k) (h₀ : w₀.Follows s p r label k) {cs : List Command}
    (hc : w.Spares label ((s.entities p r).take k) cs) :
    outcomesOf label (w.run cs) = outcomesOf label (w₀.run (cs.filter (Command.advances label))) ∧
      (w.run cs).flatMap (Step.visitsOf label) =
        (((s.entities p r).drop k).take (cs.map (Command.asks label)).sum).map (s.visit p) := by
  induction cs generalizing w w₀ k with
  | nil => exact ⟨rfl, rfl⟩
  | cons c cs ih =>
    obtain ⟨hc, hcs⟩ := hc
    have hflat : (w.run (c :: cs)).flatMap (Step.visitsOf label) = (w.step c).visitsOf label ++
        ((w.step c).after.run cs).flatMap (Step.visitsOf label) := List.flatMap_cons ..
    rw [hflat, List.map_cons, List.sum_cons]
    cases hadv : c.advances label with
    | false =>
      -- only `w` takes this step
      have hnone : (w.step c).visitsOf label = [] := by rw [Step.visitsOf, command_step, hadv]
      rw [hnone, List.map_nil, List.append_nil] at hcs
      rw [outcomesOf_run_cons, hadv, hnone, List.nil_append, asks_eq_zero hadv, Nat.zero_add,
        List.filter_cons_of_neg (by simp [hadv])]
      exact ih (h.move (moves_step w c) hc hadv) h₀ hcs
    | true =>
      obtain ⟨count, rfl⟩ := exists_eq_advance hadv
      obtain ⟨hout, hnext⟩ := h.advance hcl hw hr hlt count
      obtain ⟨hout₀, hnext₀⟩ := h₀.advance hcl hw hr hlt count
      have hmade : (w.step (.advance label count)).visitsOf label =
          (((s.entities p r).drop k).take count).map (s.visit p) := by
        rw [Step.visitsOf, command_step, hadv, hout]
      have hdone : (s.entities p r).take k ++
          ((w.step (.advance label count)).visitsOf label).map Visit.node =
            (s.entities p r).take (k + count) := by
        rw [hmade, List.map_map, List.take_add]
        exact congrArg _ (List.map_id _)
      rw [hdone] at hcs
      obtain ⟨houts, hshown⟩ := ih hnext hnext₀ hcs
      have hasks : Command.asks label (.advance label count) = count := if_pos rfl
      constructor
      · rw [List.filter_cons_of_pos hadv, outcomesOf_run_cons, outcomesOf_run_cons, if_pos hadv,
          if_pos hadv, hout, hout₀, houts]
      · rw [hmade, hshown, hasks, List.take_add, List.drop_drop, List.map_append]

end Follows

end Workspace

/-- Commands that spare a walk and the nodes that it has not shown do not show in it: its advances
come to the same as without them, and show as many visits as they ask for, those of the walk in the
schema as it was built. -/
theorem Schema.IsBuilt.walk_isolated {s : Schema} {w : Workspace} {root r : NodeId} {p : Policy}
    {label : String} (h : s.IsBuilt root) (hs : s.Sound) (hr : r ∈ s.subtree root)
    (he : w.schema.Extends s) (hwalk : w.walks.get? label = some (.start p r)) {cs : List Command}
    (hc : w.Spares label [] cs) :
    Workspace.outcomesOf label (w.run cs) =
        Workspace.outcomesOf label (w.run (cs.filter (Command.advances label))) ∧
      (w.run cs).flatMap (Workspace.Step.visitsOf label) =
        ((Walk.start p r).visits s).take (cs.map (Command.asks label)).sum := by
  obtain ⟨hle, hlt⟩ := h.range_of_mem_subtree hr
  have hf : w.Follows s p r label 0 := ⟨(Altered.refl s _).trans_extends he, hwalk⟩
  rw [h.wired.visits_eq p hle hlt, ← List.map_take]
  exact hf.run hs.closed h.wired hle hlt hf hc

namespace Workspace

/-- The shelf, and a walk of it that has not begun. -/
def shelfWorkspace : Workspace :=
  ⟨Schema.shelfSchema, [("shelf", 0), ("low", 7)], [("plan", ⟨.uncompressed, false⟩)],
    [("own", .start .uncompressed 0)]⟩

/-- After two visits, `low` gets the shelf as a child, and the shelf loses what comes next. -/
def shelfCommands : List Command :=
  [.advance "own" 2, .attach "low" "back" "shelf", .detach "shelf" "top",
    .walk "other" "plan" "low", .advance "other" 3, .advance "own" 9]

theorem shelfWorkspace_walk_isolated :
    Schema.shelfSchema.IsBuilt 0 ∧ Schema.shelfSchema.Sound ∧ 0 ∈ Schema.shelfSchema.subtree 0 ∧
      shelfWorkspace.schema.Extends Schema.shelfSchema ∧
      shelfWorkspace.walks.get? "own" = some (.start .uncompressed 0) ∧
      shelfWorkspace.Spares "own" [] shelfCommands ∧
      outcomesOf "own" (shelfWorkspace.run shelfCommands) =
        outcomesOf "own" (shelfWorkspace.run [.advance "own" 2, .advance "own" 9]) ∧
      (shelfWorkspace.run shelfCommands).flatMap (Step.visitsOf "own") =
        ((Walk.start .uncompressed 0).visits Schema.shelfSchema).take 11 := by
  have hp : ∀ q : Nat, (none : Option NodeId) = some q → q < Schema.empty.size := nofun
  have hb : Schema.empty.build Schema.shelfDescription (some "shelf") none =
      .ok Schema.shelfSchema := rfl
  have hs : Schema.shelfSchema.Sound := (Schema.sound_empty.build hp hb).2.1
  have hr : 0 ∈ Schema.shelfSchema.subtree 0 := by decide
  have hc : shelfWorkspace.Spares "own" [] shelfCommands := of_decide_eq_true (by cbv)
  exact ⟨Schema.shelfSchema_isBuilt, hs, hr, .refl _, rfl, hc,
    Schema.shelfSchema_isBuilt.walk_isolated hs hr (.refl _) rfl hc⟩

/-- The walk goes on below `top`, which is no child of the shelf any more. -/
example : (((shelfWorkspace.run shelfCommands).flatMap (Step.visitsOf "own")).map Visit.node,
    ((shelfWorkspace.run shelfCommands).flatMap (Step.visitsOf "other")).map Visit.node) =
      ([0, 7, 1, 5, 2], [7, 0, 7]) := by
  cbv

end Workspace

end DataTree
