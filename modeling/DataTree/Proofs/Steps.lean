import DataTree.Proofs.Alteration
import DataTree.Workspace.Exec

/-!
# The steps of a workspace

`w.Moves c w'`: what the command `c` can make of the workspace `w`, fault or not. Every step is
such a move (`Workspace.moves_step`), so what all moves keep holds after any run: labels, parents
and children stand for nodes of the schema (`Workspace.Sound`).
-/

namespace DataTree

namespace Workspace

theorem lookup_eq_ok_iff {α : Type} {entries : Entries String α} {label : String} {a : α} :
    lookup entries label = .ok a ↔ entries.get? label = some a := by
  unfold lookup
  cases entries.get? label <;> simp

/-- What a command can make of a workspace, and when. -/
inductive Moves (w : Workspace) : Command → Workspace → Prop
  | none (c : Command) : w.Moves c w
  | create {label : String} {name : Name} {path : String} {kind : Value}
      {visibility : Option Value} {parent : Option String} {k : Kind} {v : Visibility}
      {q : Option NodeId} :
      visibility.elim (.ok .inherited) (Value.member Visibility) = .ok v →
      w.node? parent = .ok q → kind.member Kind = .ok k →
      w.Moves (.create label name path kind visibility parent)
        (w.install (w.schema.push ⟨name, k, v, path, [], q⟩) label w.schema.size)
  | build {label : String} {name : Name} {description : Value} {parent : Option String}
      {q : Option NodeId} {schema : Schema} : w.node? parent = .ok q →
      w.schema.build description name q = .ok schema →
      w.Moves (.build label name description parent) (w.install schema label w.schema.size)
  | locate {label origin : String} {keys : List String} {o i : NodeId} :
      w.nodes.get? origin = some o → w.schema.descend o keys = .ok i →
      w.Moves (.locate label origin keys) (w.bind label i)
  | attach {parent key child : String} {i c : NodeId} : w.nodes.get? parent = some i →
      w.nodes.get? child = some c →
      w.Moves (.attach parent key child) { w with schema := w.schema.attach i (some key) c }
  | detach {parent key : String} {i : NodeId} : w.nodes.get? parent = some i →
      (w.schema.node i).children.has (some key) = true →
      w.Moves (.detach parent key) { w with schema := w.schema.detach i (some key) }
  | edit {label : String} {change : Edit} {i : NodeId} {f : Node → Node} :
      w.nodes.get? label = some i → change.change w = .ok f →
      w.Moves (.edit label change) { w with schema := w.schema.modify i f }
  | plan {label : String} {policy : Value} {strict : Bool} {plan : Plan} :
      Plan.ofValue policy strict = .ok plan →
      w.Moves (.plan label policy strict) (w.addPlan label plan)
  | walk {label plan root : String} {given : Plan} {r : NodeId} :
      w.plans.get? plan = some given → w.nodes.get? root = some r →
      w.Moves (.walk label plan root) (w.addWalk label (given.walk r))
  | advance {label : String} {count : Nat} {walk : Walk} : count ≠ 0 →
      w.walks.get? label = some walk →
      w.Moves (.advance label count) (w.addWalk label (walk.take w.schema count).later)

variable {w after : Workspace} {label : String} {i : NodeId}

theorem moves_of_create {name : Name} {path : String} {kind : Value} {visibility : Option Value}
    {parent : Option String}
    (h : w.create label name path kind visibility parent = .ok (i, after)) :
    w.Moves (.create label name path kind visibility parent) after := by
  cases visibility with
  | none =>
    simp only [create, bind_eq_ok_iff, pure_eq_ok_iff, Prod.mk.injEq] at h
    obtain ⟨v, hv, q, hq, k, hk, -, rfl⟩ := h
    exact .create (congrArg Except.ok hv) hq hk
  | some v =>
    simp only [create, bind_eq_ok_iff, pure_eq_ok_iff, Prod.mk.injEq] at h
    obtain ⟨v, hv, q, hq, k, hk, -, rfl⟩ := h
    exact .create hv hq hk

theorem moves_of_build {name : Name} {description : Value} {parent : Option String}
    (h : w.build label name description parent = .ok (i, after)) :
    w.Moves (.build label name description parent) after := by
  simp only [build, bind_eq_ok_iff, pure_eq_ok_iff, Prod.mk.injEq] at h
  obtain ⟨q, hq, schema, hs, -, rfl⟩ := h
  exact .build hq hs

theorem moves_of_locate {origin : String} {keys : List String}
    (h : w.locate label origin keys = .ok (i, after)) :
    w.Moves (.locate label origin keys) after := by
  simp only [locate, bind_eq_ok_iff, pure_eq_ok_iff, Prod.mk.injEq, node, lookup_eq_ok_iff] at h
  obtain ⟨o, ho, i, hi, -, rfl⟩ := h
  cases hd : w.schema.descend o keys with
  | error key => simp [hd, Except.mapError] at hi
  | ok j =>
    rw [hd] at hi
    cases hi
    exact .locate ho hd

theorem moves_of_attach {key child : String} (h : w.attach label key child = .ok (i, after)) :
    w.Moves (.attach label key child) after := by
  simp only [attach, bind_eq_ok_iff, pure_eq_ok_iff, Prod.mk.injEq, node, lookup_eq_ok_iff] at h
  obtain ⟨i, hi, c, hc, -, rfl⟩ := h
  exact .attach hi hc

theorem moves_of_detach {key : String} (h : w.detach label key = .ok (i, after)) :
    w.Moves (.detach label key) after := by
  simp only [detach, bind_eq_ok_iff, node, lookup_eq_ok_iff] at h
  obtain ⟨i, hi, h⟩ := h
  split at h
  · rename_i hkey
    cases h
    exact .detach hi hkey
  · cases h

theorem moves_of_edit {change : Edit} (h : w.edit label change = .ok (i, after)) :
    w.Moves (.edit label change) after := by
  simp only [edit, bind_eq_ok_iff, pure_eq_ok_iff, Prod.mk.injEq, node, lookup_eq_ok_iff] at h
  obtain ⟨i, hi, f, hf, -, rfl⟩ := h
  exact .edit hi hf

theorem advance_outcome {walk : Walk} (hwalk : w.walks.get? label = some walk) (count : Nat) :
    (w.advance label count).outcome = .ok ((walk.take w.schema count).shown,
      if count = 0 then w else w.addWalk label (walk.take w.schema count).later) := by
  rw [advance]
  by_cases hcount : count = 0
  · rw [if_pos hcount, if_pos hcount, hcount]
    rfl
  · have hlookup : lookup w.walks label = .ok walk := lookup_eq_ok_iff.2 hwalk
    rw [if_neg hcount, if_neg hcount, hlookup]
    rfl

theorem moves_of_advance {count : Nat} {made : List Visit}
    (h : (w.advance label count).outcome = .ok (made, after)) :
    w.Moves (.advance label count) after := by
  cases hwalk : w.walks.get? label with
  | none =>
    have hlookup : lookup w.walks label = .error (.missingKey label) := by rw [lookup, hwalk]
    rw [advance] at h
    split at h
    · cases h
      exact .none _
    · rw [hlookup] at h
      cases h
  | some walk =>
    rw [advance_outcome hwalk] at h
    cases h
    split
    · exact .none _
    · rename_i hcount
      exact .advance hcount hwalk

/-- A command that succeeds makes one of these moves. -/
theorem moves_of_exec {c : Command} {reply : Reply} (h : (w.exec c).outcome = .ok (reply, after)) :
    w.Moves c after := by
  cases c <;> simp only [exec, Traced.bind_outcome, Traced.pure_outcome, Traced.lift_outcome,
      bind_eq_ok_iff, Prod.exists, Except.ok.injEq, Prod.mk.injEq, lookup_eq_ok_iff, node] at h
  case create =>
    obtain ⟨i, _, h, -, rfl⟩ := h
    exact moves_of_create h
  case build =>
    obtain ⟨i, _, h, -, rfl⟩ := h
    exact moves_of_build h
  case locate =>
    obtain ⟨i, _, h, -, rfl⟩ := h
    exact moves_of_locate h
  case attach =>
    obtain ⟨i, _, h, -, rfl⟩ := h
    exact moves_of_attach h
  case detach =>
    obtain ⟨i, _, h, -, rfl⟩ := h
    exact moves_of_detach h
  case edit =>
    obtain ⟨i, _, h, -, rfl⟩ := h
    exact moves_of_edit h
  case plan =>
    obtain ⟨plan, hplan, -, rfl⟩ := h
    exact .plan hplan
  case walk =>
    obtain ⟨plan, hplan, i, hi, -, rfl⟩ := h
    exact .walk hplan hi
  case advance =>
    obtain ⟨made, _, h, -, rfl⟩ := h
    exact moves_of_advance h
  case inspect | dump | print | frontier =>
    obtain ⟨i, -, -, rfl⟩ := h
    exact .none _
  case same =>
    obtain ⟨i, -, j, -, -, rfl⟩ := h
    exact .none _
  case resolve =>
    obtain ⟨i, -, r, -, -, rfl⟩ := h
    exact .none _
  case resolveWith | flatten | findDefects =>
    obtain ⟨plan, -, i, -, r, -, -, rfl⟩ := h
    exact .none _

/-- Every step is a move; after a fault, nothing has moved. -/
theorem moves_step (w : Workspace) (c : Command) : w.Moves c (w.step c).after := by
  rw [step]
  split
  · rename_i h
    exact moves_of_exec h
  · exact .none c

end Workspace

/-! ## Sound workspaces -/

/-- The parent and the children are numbers below `bound`. -/
structure Node.Within (n : Node) (bound : Nat) : Prop where
  parent : ∀ {q : Nat}, n.parent = some q → q < bound
  child : ∀ {c : Nat}, c ∈ n.children.values → c < bound

theorem Node.Within.mono {n : Node} {bound bound' : Nat} (h : n.Within bound)
    (hle : bound ≤ bound') : n.Within bound' :=
  ⟨fun hq => Nat.lt_of_lt_of_le (h.parent hq) hle, fun hc => Nat.lt_of_lt_of_le (h.child hc) hle⟩

theorem Node.within_absent (bound : Nat) : Node.absent.Within bound :=
  ⟨nofun, nofun⟩

theorem Entries.mem_values_put {key : Name} {a c : NodeId} {m : Entries Name NodeId}
    (h : c ∈ Entries.values (m.put key a)) : c = a ∨ c ∈ m.values := by
  induction m with
  | nil => exact .inl (List.mem_singleton.1 h)
  | cons e m ih =>
    obtain ⟨k, b⟩ := e
    rw [put] at h
    split at h
    · exact (List.mem_cons.1 h).imp_right (List.mem_cons_of_mem _)
    · rcases List.mem_cons.1 h with rfl | h
      · exact .inr List.mem_cons_self
      · exact (ih h).imp_right (List.mem_cons_of_mem _)

namespace Schema

variable {s : Schema}

/-- Parents and children are nodes of the schema. -/
def Sound (s : Schema) : Prop :=
  ∀ i : Nat, (s.node i).Within s.size

theorem sound_empty : empty.Sound := fun i => by
  rw [node_of_size_le (Nat.zero_le i)]
  exact Node.within_absent _

theorem Sound.closed (h : s.Sound) : s.Closed :=
  fun hq => (h _).parent hq

/-- A schema that extends a sound one is sound if its new nodes are. -/
theorem Sound.extends {s' : Schema} (h : s.Sound) (he : s'.Extends s)
    (hnew : ∀ i : Nat, s.size ≤ i → i < s'.size → (s'.node i).Within s'.size) : s'.Sound := by
  intro i
  rcases Nat.lt_or_ge i s.size with hlt | hge
  · rw [he.node hlt]
    exact (h i).mono he.size_le
  rcases Nat.lt_or_ge i s'.size with hlt' | hge'
  · exact hnew i hge hlt'
  · rw [node_of_size_le hge']
    exact Node.within_absent _

theorem Sound.push (h : s.Sound) {n : Node} (hn : n.Within s.size) : (s.push n).Sound := by
  refine h.extends (extends_push s n) fun i hi hlt => ?_
  rw [size_push] at hlt ⊢
  obtain rfl := Nat.le_antisymm (Nat.le_of_lt_succ hlt) hi
  have hnode : (s.push n).node s.size = n := by
    rw [node, Schema.push, size, Array.getElem?_push_size]
    rfl
  rw [hnode]
  exact hn.mono (Nat.le_succ _)

theorem Sound.build {s' : Schema} (h : s.Sound) {description : Value} {name : Name}
    {parent : Option NodeId} (hp : ∀ q : Nat, parent = some q → q < s.size)
    (hb : s.build description name parent = .ok s') :
    s'.Extends s ∧ s'.Sound ∧ s.size < s'.size := by
  have hw : s'.Wired s.size := IsBuilt.wired ⟨s, description, name, parent, hp, hb, rfl⟩
  have he : s'.Extends s := by
    obtain ⟨t, -, rfl⟩ := build_eq_ok_iff.1 hb
    exact extends_plant s t name _ parent
  refine ⟨he, h.extends he fun i hi hlt => ⟨fun hq => ?_, fun hc => ?_⟩, hw.root_lt_size⟩
  · rcases Nat.eq_or_lt_of_le hi with rfl | hi
    · exact Nat.lt_trans (hw.root_parent_lt hq) hw.root_lt_size
    · obtain ⟨q, hq', hc⟩ := hw.exists_parent hi hlt
      cases (hw.child_parent hq' hc).symm.trans hq
      exact lt_size_of_mem_children hc
  · exact hw.child_lt_size hi hc

theorem Sound.modify (h : s.Sound) (i : NodeId) {change : Node → Node}
    (hc : ∀ n : Node, n.Within s.size → (change n).Within s.size) : (s.modify i change).Sound := by
  intro j
  rw [size_modify]
  by_cases e : i = j
  · subst e
    rcases Nat.lt_or_ge i s.size with hlt | hge
    · rw [node_modify_self s hlt]
      exact hc _ (h i)
    · rw [node_of_size_le (by rwa [size_modify])]
      exact Node.within_absent _
  · rw [node_modify_of_ne s e]
    exact h j

theorem Sound.descend (h : s.Sound) {keys : List String} {i j : Nat} (hi : i < s.size)
    (hd : s.descend i keys = .ok j) : j < s.size := by
  induction keys generalizing i with
  | nil =>
    cases hd
    exact hi
  | cons key keys ih =>
    rw [Schema.descend] at hd
    split at hd
    · rename_i c hc
      exact ih ((h i).child (Entries.mem_values_of_mem (Entries.mem_of_get? hc))) hd
    · cases hd

end Schema

namespace Workspace

variable {w after : Workspace}

/-- Labels, parents and children stand for nodes of the schema. -/
structure Sound (w : Workspace) : Prop where
  schema : w.schema.Sound
  label : ∀ {label : String} {i : Nat}, w.nodes.get? label = some i → i < w.schema.size

theorem sound_empty : empty.Sound :=
  ⟨Schema.sound_empty, nofun⟩

namespace Sound

theorem node? (h : w.Sound) {label : Option String} {q : Option NodeId}
    (hq : w.node? label = .ok q) : ∀ i : Nat, q = some i → i < w.schema.size := by
  rintro i rfl
  cases label with
  | none => cases hq
  | some label =>
    simp only [Workspace.node?, node, bind_eq_ok_iff, pure_eq_ok_iff, Option.some.injEq,
      lookup_eq_ok_iff] at hq
    obtain ⟨j, hj, rfl⟩ := hq
    exact h.label hj

theorem bind (h : w.Sound) (label : String) {i : Nat} (hi : i < w.schema.size) :
    (w.bind label i).Sound := by
  refine ⟨h.schema, fun hl => ?_⟩
  rw [Workspace.bind, Entries.get?_put] at hl
  split at hl
  · cases hl
    exact hi
  · exact h.label hl

theorem of_size_le (h : w.Sound) {schema : Schema} (hs : schema.Sound)
    (hle : w.schema.size ≤ schema.size) : Sound { w with schema := schema } :=
  ⟨hs, fun hl => Nat.lt_of_lt_of_le (h.label hl) hle⟩

/-- A new node gets the former size as its number. -/
theorem install (h : w.Sound) {schema : Schema} (hs : schema.Sound)
    (hlt : w.schema.size < schema.size) {label : String} :
    (w.install schema label w.schema.size).Sound :=
  (h.of_size_le hs (Nat.le_of_lt hlt)).bind label hlt

theorem modify (h : w.Sound) (i : NodeId) {change : Node → Node}
    (hc : ∀ n : Node, n.Within w.schema.size → (change n).Within w.schema.size) :
    Sound { w with schema := w.schema.modify i change } :=
  h.of_size_le (h.schema.modify i hc) (Nat.le_of_eq (Schema.size_modify ..).symm)

theorem change (h : w.Sound) {edit : Edit} {f : Node → Node} (hf : edit.change w = .ok f)
    (n : Node) (hn : n.Within w.schema.size) : (f n).Within w.schema.size := by
  cases edit with
  | name _ | path _ =>
    cases hf
    exact ⟨hn.parent, hn.child⟩
  | kind _ | visibility _ =>
    simp only [Edit.change, bind_eq_ok_iff, pure_eq_ok_iff] at hf
    obtain ⟨_, -, rfl⟩ := hf
    exact ⟨hn.parent, hn.child⟩
  | parent label =>
    simp only [Edit.change, bind_eq_ok_iff, pure_eq_ok_iff] at hf
    obtain ⟨q, hq, rfl⟩ := hf
    exact ⟨fun hp => h.node? hq _ hp, hn.child⟩

/-- Soundness is kept by every move. -/
theorem move (h : w.Sound) {c : Command} (hm : w.Moves c after) : after.Sound := by
  cases hm with
  | none => exact h
  | create _ hq _ =>
    refine h.install (h.schema.push ⟨fun hp => h.node? hq _ hp, fun hc => ?_⟩) ?_
    · cases hc
    · rw [Schema.size_push]
      exact Nat.lt_succ_self _
  | build hq hb =>
    obtain ⟨he, hs, hlt⟩ := h.schema.build (h.node? hq) hb
    exact h.install hs hlt
  | locate ho hd => exact h.bind _ (h.schema.descend (h.label ho) hd)
  | attach hi hc =>
    refine h.modify _ fun n hn => ⟨hn.parent, fun hm => ?_⟩
    rcases Entries.mem_values_put hm with rfl | hm
    · exact h.label hc
    · exact hn.child hm
  | detach hi _ =>
    refine h.modify _ fun n hn => ⟨hn.parent, fun hm => hn.child ?_⟩
    exact (List.filter_sublist.map Prod.snd).subset hm
  | edit hi hf => exact h.modify _ (h.change hf)
  | plan _ | walk _ _ | advance _ _ => exact ⟨h.schema, h.label⟩

/-- So every workspace of a run is sound. -/
theorem run (h : w.Sound) (cs : List Command) : ∀ step ∈ w.run cs, step.after.Sound := by
  induction cs generalizing w with
  | nil => exact fun _ hs => nomatch hs
  | cons c cs ih =>
    have hstep := h.move (moves_step w c)
    intro step hs
    rcases List.mem_cons.1 hs with rfl | hs
    · exact hstep
    · exact ih hstep step hs

end Sound

end Workspace

end DataTree
