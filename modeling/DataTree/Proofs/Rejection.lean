import DataTree.Proofs.Outline
import DataTree.Schema.Planting

/-!
# Rejected descriptions

A description passes five checks or fails one, in the order of `Check.all`; `d.Fails c f` says
which fault `f` it has at check `c`, in terms of its fields only. Building reports the first fault
of the first faulty description of the outline (`FirstOf`), and it builds if there is none.
-/

namespace DataTree

/-! ## First faults -/

/-- `f` is a fault of the first element of the list that has any. -/
def FirstOf {α : Type} (Has : α → Fault → Prop) (l : List α) (f : Fault) : Prop :=
  ∃ before a after, l = before ++ a :: after ∧ (∀ b ∈ before, ∀ g, ¬ Has b g) ∧ Has a f

section FirstOf

variable {α β γ : Type} {Has : α → Fault → Prop} {f : Fault}

@[simp] theorem not_firstOf_nil : ¬ FirstOf Has [] f := by
  rintro ⟨before, a, after, h, -, -⟩
  simp at h

theorem firstOf_append {l l' : List α} :
    FirstOf Has (l ++ l') f ↔
      FirstOf Has l f ∨ (∀ a ∈ l, ∀ g, ¬ Has a g) ∧ FirstOf Has l' f := by
  constructor
  · rintro ⟨before, a, after, h, hb, ha⟩
    rcases List.append_eq_append_iff.1 h with ⟨m, rfl, h'⟩ | ⟨m, rfl, h'⟩
    · refine .inr ⟨fun b hm => hb b (List.mem_append_left _ hm), m, a, after, h', ?_, ha⟩
      exact fun b hm => hb b (List.mem_append_right _ hm)
    · cases m with
      | nil => exact .inr ⟨by simpa using hb, [], a, after, h'.symm, by simp, ha⟩
      | cons e m =>
        obtain ⟨rfl, rfl⟩ := List.cons.inj h'
        exact .inl ⟨before, a, m, rfl, hb, ha⟩
  · rintro (⟨before, a, after, rfl, hb, ha⟩ | ⟨hl, before, a, after, rfl, hb, ha⟩)
    · exact ⟨before, a, after ++ l', by simp, hb, ha⟩
    · refine ⟨l ++ before, a, after, by simp, fun b hm => ?_, ha⟩
      exact (List.mem_append.1 hm).elim (hl b) (hb b)

@[simp] theorem firstOf_singleton {a : α} : FirstOf Has [a] f ↔ Has a f := by
  constructor
  · rintro ⟨before, b, after, h, -, hb⟩
    cases before with
    | nil => exact (List.cons.inj h).1 ▸ hb
    | cons _ before => simp at h
  · exact fun h => ⟨[], a, [], rfl, by simp, h⟩

theorem firstOf_cons {a : α} {l : List α} :
    FirstOf Has (a :: l) f ↔ Has a f ∨ (∀ g, ¬ Has a g) ∧ FirstOf Has l f := by
  rw [← List.singleton_append, firstOf_append, firstOf_singleton]
  simp

/-- A list has a first fault if one of its elements has any. -/
theorem exists_firstOf {l : List α} : (∃ f, FirstOf Has l f) ↔ ∃ a ∈ l, ∃ f, Has a f := by
  constructor
  · rintro ⟨f, before, a, after, rfl, -, ha⟩
    exact ⟨a, by simp, f, ha⟩
  · induction l with
    | nil => simp
    | cons a l ih =>
      rintro ⟨b, hb, hf⟩
      by_cases ha : ∃ g, Has a g
      · exact ha.imp fun g hg => firstOf_cons.2 (.inl hg)
      · rcases List.mem_cons.1 hb with rfl | hb
        · exact absurd hf ha
        · exact (ih ⟨b, hb, hf⟩).imp fun f h => firstOf_cons.2 (.inr ⟨not_exists.1 ha, h⟩)

/-- The result is an error exactly if an element of the list is at fault, and then it is the first
fault. -/
def Reports (Has : α → Fault → Prop) (r : Except Fault β) (l : List α) : Prop :=
  ∀ f, r = .error f ↔ FirstOf Has l f

theorem bind_eq_error_iff {x : Except Fault β} {g : β → Except Fault γ} :
    (x >>= g) = .error f ↔ x = .error f ∨ ∃ b, x = .ok b ∧ g b = .error f := by
  cases x <;> simp [bind, Except.bind]

theorem Reports.pure (b : β) : Reports Has (pure b) [] := by
  intro f
  simp [Pure.pure, Except.pure]

/-- A fault of the second part is reported only if the first part is clean. -/
theorem Reports.bind {x : Except Fault β} {g : β → Except Fault γ} {l l' : List α}
    (hx : Reports Has x l) (hg : ∀ b, x = .ok b → Reports Has (g b) l') :
    Reports Has (x >>= g) (l ++ l') := by
  intro f
  rw [bind_eq_error_iff, firstOf_append, hx f]
  refine or_congr_right ⟨?_, ?_⟩
  · rintro ⟨b, rfl, hf⟩
    refine ⟨fun a ha g hag => ?_, (hg b rfl f).1 hf⟩
    obtain ⟨f', hf'⟩ := exists_firstOf.2 ⟨a, ha, g, hag⟩
    cases (hx f').2 hf'
  · rintro ⟨hl, hf⟩
    cases x with
    | error f' =>
      obtain ⟨a, ha, hf'⟩ := exists_firstOf.1 ⟨f', (hx f').1 rfl⟩
      exact absurd hf'.choose_spec (hl a ha _)
    | ok b => exact ⟨b, rfl, (hg b rfl f).2 hf⟩

/-- What cannot fail adds nothing to the report. -/
theorem Reports.bind_pure {x : Except Fault β} {l : List α} (hx : Reports Has x l) (g : β → γ) :
    Reports Has (x >>= fun b => Pure.pure (g b)) l := by
  have h : Reports Has (x >>= fun b => Pure.pure (g b)) (l ++ []) := hx.bind fun b _ => .pure (g b)
  rwa [List.append_nil] at h

end FirstOf

/-! ## Faults of one description -/

/-- What is checked of a description. -/
inductive Check where
  /-- It is a mapping. -/
  | mapping
  /-- Its children are missing, null or a mapping. -/
  | children
  /-- Its kind is missing, null or a kind. -/
  | kind
  /-- Its visibility is missing, null, a truth value or a visibility. -/
  | visibility
  /-- Leaves and leafrefs have no children. -/
  | bareness
  deriving DecidableEq

/-- The checks in the order in which they are made. -/
def Check.all : List Check :=
  [mapping, children, kind, visibility, bareness]

theorem Check.mem_all (c : Check) : c ∈ Check.all := by
  cases c <;> decide

namespace Described

open Description

/-- The fault that a description has at a check. -/
inductive Fails (d : Described) : Check → Fault → Prop
  | mapping : (∀ fields, d.value ≠ .map fields) → Fails d .mapping (.notMapping d.name d.value)
  | children {fields : Entries String Value} {v : Value} : d.value = .map fields →
      fields.get? "children" = some v → v ≠ .null → (∀ children, v ≠ .map children) →
      Fails d .children (.childrenNotMapping d.name v)
  | kind {fields : Entries String Value} {v : Value} : d.value = .map fields →
      fields.get? "kind" = some v → v ≠ .null → (∀ k : Kind, ¬ v.Names k) →
      Fails d .kind (.unknownKind d.name v)
  | visibility {fields : Entries String Value} {v : Value} : d.value = .map fields →
      fields.get? "config" = some v → v ≠ .null → (∀ b, v ≠ .bool b) →
      (∀ x : Visibility, ¬ v.Names x) → Fails d .visibility (.unknownVisibility d.name v)
  | bareness {fields : Entries String Value} {k : Kind} : d.value = .map fields →
      HasKind fields k → k = .leaf ∨ k = .leafref → d.value.entries ≠ [] →
      Fails d .bareness (.childrenRefused k d.path)

/-- The fault at the first check that the description fails. -/
def FirstFault (d : Described) (f : Fault) : Prop :=
  FirstOf d.Fails Check.all f

end Described

/-! ## Reading one description -/

namespace Description

theorem hasKind_unique {fields : Entries String Value} {k k' : Kind} (h : HasKind fields k)
    (h' : HasKind fields k') : k = k' := by
  have hk : kind none fields = .ok k := kind_eq_ok_iff.2 h
  have hk' : kind none fields = .ok k' := kind_eq_ok_iff.2 h'
  exact Except.ok.inj (hk.symm.trans hk')

theorem declaresChildren_iff {fields : Entries String Value} :
    declaresChildren fields = true ↔ (Value.map fields).entries ≠ [] := by
  rw [declaresChildren, Value.entries]
  split
  · simp [*, Entries.unseen]
  · rename_i h
    split
    · rename_i children hg
      cases children with
      | nil => simp [Entries.unseen]
      | cons e rest => exact absurd hg (h e rest)
    · simp

/-- What is declared as children is no mapping. -/
theorem checkChildren_eq_error_iff {name : Name} {fields : Entries String Value} {f : Fault} :
    checkChildren name fields = .error f ↔
      ∃ v, fields.get? "children" = some v ∧ v ≠ .null ∧ (∀ children, v ≠ .map children) ∧
        f = .childrenNotMapping name v := by
  rcases blank_or_given fields "children" with hb | ⟨v, hg, hv⟩
  · have hok : checkChildren name fields = .ok () := by
      rcases hb with h | h <;> simp only [checkChildren, h]
    rw [hok]
    constructor
    · intro h
      cases h
    · rintro ⟨v, hg, hv, -⟩
      exact absurd hb (not_blank hg hv)
  · rw [checkChildren, hg]
    cases v with
    | null => exact absurd rfl hv
    | _ => simp [eq_comm]

/-- The kind that a description names is unknown. -/
theorem kind_eq_error_iff {name : Name} {fields : Entries String Value} {f : Fault} :
    kind name fields = .error f ↔
      ∃ v, fields.get? "kind" = some v ∧ v ≠ .null ∧ (∀ k : Kind, ¬ v.Names k) ∧
        f = .unknownKind name v := by
  have hkind : kind name fields = .error f ↔ declaredKind name fields = .error f := by
    rw [kind, bind_eq_error_iff]
    refine or_iff_left ?_
    rintro ⟨k, -, h⟩
    cases k <;> cases h
  rw [hkind]
  rcases blank_or_given fields "kind" with hb | ⟨v, hg, hv⟩
  · rw [declaredKind_of_blank hb]
    constructor
    · intro h
      cases h
    · rintro ⟨v, hg, hv, -⟩
      exact absurd hb (not_blank hg hv)
  · rw [declaredKind_of_given hg hv, hg]
    cases hm : v.member? Kind with
    | none => simp [hv, ← Value.member?_eq_none_iff, hm, eq_comm]
    | some k => simp [← Value.member?_eq_none_iff, hm]

/-- The visibility that a description names is unknown. -/
theorem visibility_eq_error_iff {name : Name} {fields : Entries String Value} {f : Fault} :
    visibility name fields = .error f ↔
      ∃ v, fields.get? "config" = some v ∧ v ≠ .null ∧ (∀ b, v ≠ .bool b) ∧
        (∀ x : Visibility, ¬ v.Names x) ∧ f = .unknownVisibility name v := by
  rcases blank_or_given fields "config" with hb | ⟨v, hg, hv⟩
  · rw [visibility_of_blank hb]
    constructor
    · intro h
      cases h
    · rintro ⟨v, hg, hv, -⟩
      exact absurd hb (not_blank hg hv)
  by_cases hb : ∃ b, v = .bool b
  · obtain ⟨b, rfl⟩ := hb
    rw [visibility_of_bool hg, hg]
    constructor
    · intro h
      cases h
    · rintro ⟨v, h, -, hb, -⟩
      exact absurd (Option.some.inj h).symm (hb b)
  · rw [visibility_of_given hg hv fun b e => hb ⟨b, e⟩, hg]
    have hbool : ∀ b, v ≠ .bool b := fun b e => hb ⟨b, e⟩
    cases hm : v.member? Visibility with
    | none => simp [hv, hbool, ← Value.member?_eq_none_iff, hm, eq_comm]
    | some x => simp [← Value.member?_eq_none_iff, hm]

end Description

namespace Described

open Description

variable {d : Described} {fields : Entries String Value}

theorem reports_checkChildren (hd : d.value = .map fields) :
    Reports d.Fails (checkChildren d.name fields) [.children] := by
  intro f
  rw [firstOf_singleton, checkChildren_eq_error_iff]
  constructor
  · rintro ⟨v, hg, hv, hm, rfl⟩
    exact .children hd hg hv hm
  · intro h
    cases h with
    | children hd' hg hv hm =>
      cases hd.symm.trans hd'
      exact ⟨_, hg, hv, hm, rfl⟩

theorem reports_kind (hd : d.value = .map fields) :
    Reports d.Fails (kind d.name fields) [.kind] := by
  intro f
  rw [firstOf_singleton, kind_eq_error_iff]
  constructor
  · rintro ⟨v, hg, hv, hk, rfl⟩
    exact .kind hd hg hv hk
  · intro h
    cases h with
    | kind hd' hg hv hk =>
      cases hd.symm.trans hd'
      exact ⟨_, hg, hv, hk, rfl⟩

theorem reports_visibility (hd : d.value = .map fields) :
    Reports d.Fails (visibility d.name fields) [.visibility] := by
  intro f
  rw [firstOf_singleton, visibility_eq_error_iff]
  constructor
  · rintro ⟨v, hg, hv, hb, hx, rfl⟩
    exact .visibility hd hg hv hb hx
  · intro h
    cases h with
    | visibility hd' hg hv hb hx =>
      cases hd.symm.trans hd'
      exact ⟨_, hg, hv, hb, hx, rfl⟩

theorem reports_bareness (hd : d.value = .map fields) {k : Kind} (hk : HasKind fields k)
    {β : Type} {b : β} :
    Reports d.Fails
      (if declaresChildren fields && !k.isDirectory then
        throw (.childrenRefused k d.path) >>= fun (_ : Unit) => pure b
      else pure b) [.bareness] := by
  intro f
  have hdir : k.isDirectory = false ↔ k = .leaf ∨ k = .leafref := by cases k <;> decide
  rw [firstOf_singleton]
  constructor
  · intro h
    split at h
    · rename_i hc
      rw [Bool.and_eq_true, declaresChildren_iff, ← hd, Bool.not_eq_true', hdir] at hc
      cases h
      exact .bareness hd hk hc.2 hc.1
    · cases h
  · intro h
    cases h with
    | bareness hd' hk' hbare hne =>
      cases hd.symm.trans hd'
      cases hasKind_unique hk hk'
      rw [hd, ← declaresChildren_iff] at hne
      rw [if_pos (by rw [hne, hdir.2 hbare]; rfl)]
      rfl

/-- Reading a mapping itself, without its children, reports its first fault. -/
theorem reports_header (hd : d.value = .map fields) :
    Reports FirstFault (header d.name d.path fields) [d] := by
  have hmap : ∀ f, ¬ d.Fails .mapping f := by
    rintro f ⟨h⟩
    exact h fields hd
  have hrest : Reports d.Fails (header d.name d.path fields)
      ([.children] ++ ([.kind] ++ ([.visibility] ++ [.bareness]))) :=
    (reports_checkChildren hd).bind fun _ _ => (reports_kind hd).bind fun _ hk =>
      (reports_visibility hd).bind fun _ _ => reports_bareness hd (kind_eq_ok_iff.1 hk)
  intro f
  rw [hrest f, firstOf_singleton, FirstFault, Check.all, firstOf_cons]
  simp [hmap]

theorem firstFault_of_not_map (h : ∀ fields, d.value ≠ .map fields) {f : Fault} :
    d.FirstFault f ↔ f = .notMapping d.name d.value := by
  rw [FirstFault, Check.all, firstOf_cons]
  constructor
  · rintro (hf | ⟨hn, -⟩)
    · cases hf
      rfl
    · exact absurd (.mapping h) (hn _)
  · rintro rfl
    exact .inl (.mapping h)

/-- The description has a fault. -/
def Faulty (d : Described) : Prop :=
  ∃ c f, d.Fails c f

theorem faulty_iff : d.Faulty ↔ ∃ f, d.FirstFault f := by
  simp only [Faulty, FirstFault, exists_firstOf, Check.mem_all, true_and]

end Described

/-! ## Reading all that a description reaches -/

open Described Description

theorem Forest.reports_ofDescriptions {path : String} {m : Entries String Value}
    (h : ∀ e ∈ m, Reports FirstFault (Tree.ofValue (some e.1) (Path.child path e.1) e.2)
      (e.2.outline (some e.1) (Path.child path e.1))) :
    Reports FirstFault (Forest.ofDescriptions path m) (Entries.outline path m) := by
  induction m with
  | nil => exact .pure _
  | cons e rest ih =>
    have hrest := ih fun e he => h e (List.mem_cons_of_mem _ he)
    exact (h e List.mem_cons_self).bind fun _ _ => hrest.bind_pure _

/-- Reading a description reports the first fault of the first faulty description of its outline. -/
theorem Tree.reports_ofValue (name : Name) (path : String) (v : Value) :
    Reports FirstFault (Tree.ofValue name path v) (v.outline name path) := by
  induction v using Value.induction_entries generalizing name path with
  | step v ih =>
    rw [Value.outline_eq, ← List.singleton_append]
    by_cases hv : ∃ fields, v = .map fields
    · obtain ⟨fields, rfl⟩ := hv
      let d : Described := ⟨name, path, .map fields⟩
      have hself : Reports FirstFault (header d.name d.path fields) [d] := reports_header rfl
      have hbelow : Reports FirstFault (Forest.ofDescriptions path (Value.map fields).entries)
          (Entries.outline path (Value.map fields).entries) :=
        Forest.reports_ofDescriptions fun e he => ih e he _ _
      rw [Tree.ofValue, Forest.ofFields_eq]
      exact hself.bind fun _ _ => hbelow.bind_pure _
    · have hmap : ∀ fields, v ≠ .map fields := fun fields e => hv ⟨fields, e⟩
      intro f
      have hentries : v.entries = [] := by
        cases v with
        | map fields => exact absurd rfl (hmap fields)
        | _ => rfl
      rw [hentries, Entries.outline_nil, List.append_nil, firstOf_singleton,
        firstFault_of_not_map hmap, Tree.ofValue]
      · exact ⟨fun h => (Except.error.inj h).symm, fun h => congrArg _ h.symm⟩
      · exact hmap

/-! ## What a report says -/

/-- The fault is in the type of what was given, and not in its value. -/
def Fault.isTypeFault : Fault → Bool
  | notMapping .. | childrenNotMapping .. | notLoadable .. | outsideDataTree .. | unordered .. =>
    true
  | _ => false

/-- How a message tells of which node it is: by its name, or by its kind and full path. -/
def Described.label (d : Described) : Fault → String
  | .childrenRefused k _ => Vocabulary.word k ++ " node " ++ Text.quoted d.path
  | _ => d.name.quoted

theorem Described.label_of_plain {d : Described} {name : String} {f : Fault}
    (hn : d.name = some name) (hp : Text.IsPlain name)
    (hf : ∀ k path, f ≠ .childrenRefused k path) : d.label f = "'" ++ name ++ "'" := by
  rw [← Text.quoted_of_plain hp]
  cases f with
  | childrenRefused k path => exact (hf k path rfl).elim
  | _ => exact congrArg Name.quoted hn

theorem Described.label_of_childrenRefused {d : Described} (hp : Text.IsPlain d.path) (k : Kind)
    (path : String) : d.label (.childrenRefused k path) =
      Vocabulary.word k ++ " node " ++ ("'" ++ d.path ++ "'") := by
  rw [label, Text.quoted_of_plain hp]

theorem Described.Fails.isTypeFault_iff {d : Described} {c : Check} {f : Fault}
    (h : d.Fails c f) : f.isTypeFault = true ↔ c = .mapping ∨ c = .children := by
  cases h <;> simp [Fault.isTypeFault]

theorem Described.Fails.label_infix {d : Described} {c : Check} {f : Fault} (h : d.Fails c f) :
    ∃ before after, f.message = before ++ d.label f ++ after := by
  cases h with
  | mapping _ => exact ⟨"Node description for ", _, String.append_assoc⟩
  | children _ _ _ _ => exact ⟨"children of ", _, String.append_assoc⟩
  | @kind _ v _ _ _ _ =>
    exact ⟨"Unknown kind " ++ v.text ++ " for node ", "", String.append_empty.symm⟩
  | @visibility _ v _ _ _ _ _ =>
    exact ⟨"Unknown config value " ++ v.text ++ " for node ", "", String.append_empty.symm⟩
  | bareness _ _ _ _ => exact ⟨"", " cannot declare children", by rw [String.empty_append]; rfl⟩

/-- Building refuses exactly the descriptions that reach a faulty one, and reports the first fault
of the first of these, with the label of its node; a fault in the type of a value is told from one
in the value. -/
theorem Schema.build_reports_first (s : Schema) (v : Value) (name : Name)
    (parent : Option NodeId) :
    ((∃ f, s.build v name parent = .error f) ↔
      ∃ d ∈ v.outline name (s.newPath name parent), d.Faulty) ∧
    (∀ f, s.build v name parent = .error f ↔
      FirstOf FirstFault (v.outline name (s.newPath name parent)) f) ∧
    ∀ (d : Described) (c : Check) (f : Fault), d.Fails c f →
      (f.isTypeFault = true ↔ c = .mapping ∨ c = .children) ∧
      ∃ before after, f.message = before ++ d.label f ++ after := by
  have hreports : Reports FirstFault (s.build v name parent)
      (v.outline name (s.newPath name parent)) :=
    (Tree.reports_ofValue name _ v).bind_pure _
  refine ⟨?_, hreports, fun d c f h => ⟨h.isTypeFault_iff, h.label_infix⟩⟩
  rw [exists_congr hreports, exists_firstOf]
  simp only [faulty_iff]

/-- A leaf with an unknown visibility and with children, before something that is no description. -/
def faultyDescription : Value :=
  .map [("children", .map [
    ("mtu", .map [("config", .str "maybe"), ("kind", .str "leaf"),
      ("children", .map [("unit", .map [])])]),
    ("name", .null)])]

theorem Schema.build_reports_first_faultyDescription :
    FirstOf FirstFault (faultyDescription.outline (some "port") "/port")
      (.unknownVisibility (some "mtu") (.str "maybe")) ∧
    (⟨some "mtu", "/port/mtu", .map [("config", .str "maybe"), ("kind", .str "leaf"),
      ("children", .map [("unit", .map [])])]⟩ : Described).Fails .visibility
        (.unknownVisibility (some "mtu") (.str "maybe")) ∧
    (Fault.unknownVisibility (some "mtu") (.str "maybe")).isTypeFault = false := by
  obtain ⟨-, hfirst, htold⟩ :=
    Schema.empty.build_reports_first faultyDescription (some "port") none
  have hfails : Described.Fails ⟨some "mtu", "/port/mtu", .map [("config", .str "maybe"),
      ("kind", .str "leaf"), ("children", .map [("unit", .map [])])]⟩ .visibility
      (.unknownVisibility (some "mtu") (.str "maybe")) :=
    .visibility rfl rfl nofun nofun (Value.member?_eq_none_iff.1 rfl)
  refine ⟨(hfirst _).1 rfl, hfails, Bool.eq_false_iff.2 fun h => ?_⟩
  exact ((htold _ _ _ hfails).1.1 h).elim nofun nofun

end DataTree
