import DataTree.Proofs.Flattening
import DataTree.Proofs.Traversal
import Mathlib.Tactic

/-!
# What the log says of a walk

Resolving, warning and going through entities write to one log. Of each visited node it says what
the visit found wrong, one warning for each defect, and then, once, how many children the node has;
whatever else is said of the visit comes before and is neither
(`Visit.filter_isAboutVisit_events`). So both calls that walk to the end warn about the defects of
the whole walk, in its order, and a strict plan that refuses them has warned about them before
(`IsBuilt.reports_traversal`).
-/

namespace DataTree

variable {s : Schema} {root r : Nat}

namespace Event

def isWarning (e : Event) : Bool :=
  e.level = .warning

/-- The event that ends a visit. -/
def endsVisit : Event → Bool
  | visited .. => true
  | _ => false

/-- A warning, or the end of a visit. -/
def isAboutVisit (e : Event) : Bool :=
  e.isWarning || e.endsVisit

/-- The defect that is warned about. -/
def found? : Event → Option Defect
  | defect _ d => some d
  | _ => none

end Event

namespace Visit

def warnings (s : Schema) (v : Visit) : List Event :=
  v.resolved.defects.map (.defect (v.path s))

def ending (s : Schema) (v : Visit) : Event :=
  .visited (v.path s) v.resolved.size

end Visit

/-- What a log with these events says of the visits `vs`. -/
structure Schema.Reports (s : Schema) (vs : List Visit) (events : List Event) : Prop where
  turns : events.filter Event.isAboutVisit = vs.flatMap fun v => v.warnings s ++ [v.ending s]
  warnings : events.filter Event.isWarning = vs.flatMap (Visit.warnings s)
  found : (events.filter Event.isWarning).filterMap Event.found? = Plan.defects vs
  endings : events.filter Event.endsVisit = vs.map (Visit.ending s)
  warning_texts : (events.filter Event.isWarning).map Event.message = vs.flatMap fun v =>
    v.resolved.defects.map fun d =>
      "Structural error under " ++ (if v.path s = "" then "/" else v.path s) ++ ": " ++ d.message
  ending_texts : ((events.filter Event.endsVisit).map fun e => (e.level, e.message)) =
    vs.map fun v => (Level.debug, "Entity " ++ (if v.path s = "" then "/" else v.path s) ++
      " has " ++ toString v.resolved.children.length ++ " children")

/-! ## One visit -/

namespace Visit

theorem filter_isAboutVisit_resolveEvents (s : Schema) (p : Policy) (i : NodeId) :
    (s.resolveEvents p i).filter Event.isAboutVisit = [] := by
  rw [List.filter_eq_nil_iff]
  intro e he
  unfold Schema.resolveEvents at he
  split at he
  · rcases List.mem_append.1 he with he | he
    · obtain ⟨c, -, rfl⟩ := List.mem_map.1 he
      exact Bool.false_ne_true
    · cases List.mem_singleton.1 he
      exact Bool.false_ne_true
  · cases List.mem_singleton.1 he
    exact Bool.false_ne_true

theorem filter_isAboutVisit_events (s : Schema) (p : Policy) (v : Visit) :
    (v.events s p).filter Event.isAboutVisit = v.warnings s ++ [v.ending s] := by
  have hevents : v.events s p = s.resolveEvents p v.node ++ v.warnings s ++ [v.ending s] := rfl
  have hwarnings : (v.warnings s).filter Event.isAboutVisit = v.warnings s := by
    rw [List.filter_eq_self]
    intro e he
    obtain ⟨d, -, rfl⟩ := List.mem_map.1 he
    rfl
  rw [hevents, List.filter_append, List.filter_append, filter_isAboutVisit_resolveEvents,
    hwarnings, List.nil_append]
  rfl

/-- Warnings and endings can be told apart. -/
theorem filter_isWarning_turn (s : Schema) (v : Visit) :
    (v.warnings s ++ [v.ending s]).filter Event.isWarning = v.warnings s := by
  have hwarnings : (v.warnings s).filter Event.isWarning = v.warnings s := by
    rw [List.filter_eq_self]
    intro e he
    obtain ⟨d, -, rfl⟩ := List.mem_map.1 he
    rfl
  rw [List.filter_append, hwarnings]
  exact List.append_nil _

theorem filter_endsVisit_turn (s : Schema) (v : Visit) :
    (v.warnings s ++ [v.ending s]).filter Event.endsVisit = [v.ending s] := by
  have hwarnings : (v.warnings s).filter Event.endsVisit = [] := by
    rw [List.filter_eq_nil_iff]
    intro e he
    obtain ⟨d, -, rfl⟩ := List.mem_map.1 he
    exact Bool.false_ne_true
  rw [List.filter_append, hwarnings]
  rfl

end Visit

/-! ## All visits -/

/-- A log says of the visits what it says of them turn by turn. -/
theorem Schema.Reports.of_turns {vs : List Visit} {events : List Event}
    (h : events.filter Event.isAboutVisit = vs.flatMap fun v => v.warnings s ++ [v.ending s]) :
    s.Reports vs events := by
  -- both kinds of events are picked from the turns
  have hpick : ∀ f : Event → Bool, (∀ e, f e = true → e.isAboutVisit = true) →
      events.filter f = vs.flatMap fun v => (v.warnings s ++ [v.ending s]).filter f := by
    intro f hf
    rw [← List.filter_flatMap, ← h, List.filter_filter]
    refine List.filter_congr fun e _ => ?_
    cases he : f e with
    | false => rfl
    | true => rw [hf e he]; rfl
  have hwarnings : events.filter Event.isWarning = vs.flatMap (Visit.warnings s) := by
    rw [hpick _ fun e he => by simp [Event.isAboutVisit, he]]
    exact List.flatMap_congr fun v _ => v.filter_isWarning_turn s
  have hendings : events.filter Event.endsVisit = vs.map (Visit.ending s) := by
    rw [hpick _ fun e he => by simp [Event.isAboutVisit, he], ← List.flatMap_pure_eq_map]
    exact List.flatMap_congr fun v _ => v.filter_endsVisit_turn s
  refine ⟨h, hwarnings, ?found, hendings, ?warningTexts, ?endingTexts⟩
  case found =>
    rw [hwarnings, List.filterMap_flatMap]
    refine List.flatMap_congr fun v _ => ?_
    rw [Visit.warnings, List.filterMap_map]
    exact List.filterMap_some
  case warningTexts =>
    rw [hwarnings, List.map_flatMap]
    refine List.flatMap_congr fun v _ => ?_
    rw [Visit.warnings, List.map_map]
    rfl
  case endingTexts =>
    rw [hendings, List.map_map]
    rfl

namespace Plan

variable (plan : Plan)

theorem filter_isAboutVisit_finish (s : Schema) (r : NodeId) :
    ((plan.walk r).finish s).events.filter Event.isAboutVisit =
      (plan.visits s r).flatMap fun v => v.warnings s ++ [v.ending s] := by
  rw [Walk.finish, Walk.take_events, List.filter_flatMap]
  exact List.flatMap_congr fun v _ => v.filter_isAboutVisit_events s plan.policy

theorem findDefects_events (s : Schema) (r : NodeId) :
    (plan.findDefects s r).events = ((plan.walk r).finish s).events :=
  List.append_nil _

/-- Flattening writes one line of its own, and nothing after it, be the plan strict or not. -/
theorem flatten_events (s : Schema) (r : NodeId) :
    ∃ e : Event, e.isAboutVisit = false ∧
      (plan.flatten s r).events = ((plan.walk r).finish s).events ++ [e] := by
  have hall : (plan.allVisits s r).outcome = .ok (plan.visits s r) := rfl
  refine ⟨.flattened (Entries.ofList (pairs s (plan.visits s r))).length
    (defects (plan.visits s r)).length, rfl, ?_⟩
  unfold flatten
  rw [Traced.bind_of_ok hall]
  cases hc : plan.strict && !(defects (plan.visits s r)).isEmpty <;>
    simp only [hc, Bool.false_eq_true, if_false, if_true] <;> rfl

theorem reports_findDefects (s : Schema) (r : NodeId) :
    s.Reports (plan.visits s r) (plan.findDefects s r).events := by
  apply Schema.Reports.of_turns
  rw [findDefects_events, filter_isAboutVisit_finish]

theorem reports_flatten (s : Schema) (r : NodeId) :
    s.Reports (plan.visits s r) (plan.flatten s r).events := by
  obtain ⟨e, he, hevents⟩ := plan.flatten_events s r
  apply Schema.Reports.of_turns
  rw [hevents, List.filter_append, filter_isAboutVisit_finish,
    List.filter_cons_of_neg (by simp [he]), List.filter_nil, List.append_nil]

end Plan

/-- Every defect of a walk is warned about once, in the order of the walk, whether the defects are
asked for or the walk is flattened, and also if a strict plan then refuses them. -/
theorem Schema.IsBuilt.reports_traversal (h : s.IsBuilt root) (hr : r ∈ s.subtree root)
    (plan : Plan) : ∃ vs, s.Traversal plan.policy r vs ∧
      (plan.findDefects s r).outcome = .ok (Plan.defects vs) ∧
      s.Reports vs (plan.findDefects s r).events ∧
      s.Reports vs (plan.flatten s r).events ∧
      ((plan.flatten s r).outcome = .error (.defective (Plan.defects vs)) ↔
        plan.strict = true ∧ Plan.defects vs ≠ []) := by
  obtain ⟨hle, hlt⟩ := h.range_of_mem_subtree hr
  have hvisits : plan.visits s r = (s.entities plan.policy r).map (s.visit plan.policy) :=
    h.wired.visits_eq plan.policy hle hlt
  refine ⟨plan.visits s r, ?_, plan.findDefects_outcome s r, plan.reports_findDefects s r,
    plan.reports_flatten s r, ?_⟩
  · rw [hvisits]
    exact h.wired.traversal_entities hle hlt
  · rw [plan.flatten_outcome]
    by_cases hc : plan.strict = true ∧ Plan.defects (plan.visits s r) ≠ []
    · simp [hc]
    · rw [if_neg (by simpa using hc)]
      exact iff_of_false (fun e => nomatch e) hc

namespace Schema

/-- A bench without a name, whose own members clash as those of its drawer do, and which has a side
in a side. -/
def benchDescription : Value :=
  .map [("children", .map [("mtu", .map []),
    ("config", .map [("children", .map [("mtu", .map []),
      ("state", .map [("children", .map [])])])]),
    ("drawer", .map [("children", .map [("mtu", .map []),
      ("config", .map [("children", .map [("mtu", .map [])])])])])])]

def benchSchema : Schema :=
  ((empty.build benchDescription (some "") none).toOption).getD empty

theorem benchSchema_isBuilt : benchSchema.IsBuilt 0 :=
  ⟨empty, benchDescription, some "", none, nofun, rfl, rfl⟩

def benchPlan : Plan :=
  ⟨.compressedPreferConfig, true⟩

/-- What the plan refuses, it has warned about, under the root first. -/
theorem reports_traversal_benchSchema :
    benchSchema.IsBuilt 0 ∧ 0 ∈ benchSchema.subtree 0 ∧ (benchSchema.node 0).path = "" ∧
      (∃ vs, benchSchema.Traversal benchPlan.policy 0 vs ∧
        (benchPlan.findDefects benchSchema 0).outcome = .ok (Plan.defects vs) ∧
        benchSchema.Reports vs (benchPlan.findDefects benchSchema 0).events ∧
        benchSchema.Reports vs (benchPlan.flatten benchSchema 0).events ∧
        ((benchPlan.flatten benchSchema 0).outcome = .error (.defective (Plan.defects vs)) ↔
          benchPlan.strict = true ∧ Plan.defects vs ≠ [])) ∧
      ((benchPlan.flatten benchSchema 0).events.filter Event.isAboutVisit).map Event.message =
        ["Structural error under /: " ++
            "/config/state is a state container nested in a config/state container",
          "Structural error under /: /mtu was duplicate", "Entity / has 3 children",
          "Structural error under /drawer: /drawer/mtu was duplicate",
          "Entity /drawer has 1 children", "Entity /config/state has 0 children"] := by
  have hr : 0 ∈ benchSchema.subtree 0 := by decide
  have hturns : (benchPlan.flatten benchSchema 0).events.filter Event.isAboutVisit =
      [.defect "" ⟨.nestedPair, "/config/state", some "state"⟩,
        .defect "" ⟨.duplicate, "/mtu", some "mtu"⟩, .visited "" 3,
        .defect "/drawer" ⟨.duplicate, "/drawer/mtu", some "mtu"⟩, .visited "/drawer" 1,
        .visited "/config/state" 0] := by
    cbv
  refine ⟨benchSchema_isBuilt, hr, rfl, benchSchema_isBuilt.reports_traversal hr benchPlan, ?_⟩
  rw [hturns]
  rfl

end Schema

end DataTree
