import DataTree.Proofs.Clashes
import DataTree.Proofs.Inheritance

/-!
# Loading a part of a data model

Any node of a data model can be loaded on its own, with what is below it. `n.Line line m`: `m` is a
node of the data tree at or below `n`, and `line` lists the headers on the way there. What becomes
of `m` when `n` is loaded is found under the names on the line, and its effective visibility is told
by the nearest explicit content type on the line (`Line.exists_follow`). What is above `n` has no
say, so a part of a read-only tree that declares nothing itself is writable when loaded on its own
(`Line.writable_part`).
-/

namespace DataTree

/-- The node that a chain of names leads to from `i`. -/
def Schema.follow (s : Schema) (i : NodeId) : List Name → Option NodeId
  | [] => some i
  | name :: names => ((s.node i).children.get? name).bind fun c => s.follow c names

namespace Yang

/-- `m` is a node of the data tree at or below `n`; `line` are the headers below `n` down to it. -/
inductive Node.Line : Node → List Header → Node → Prop
  | here (n : Node) : Line n [] n
  | child {n c m : Node} {line : List Header} : c ∈ n.children.toList → c.header.kind?.isSome →
      Line c line m → Line n (c.header :: line) m

/-- The explicit content type nearest to the end of a line. -/
def nearest? (line : List Header) : Option ContentType :=
  line.reverse.findSome? Header.content

theorem nearest?_append (above below : List Header) :
    nearest? (above ++ below) = (nearest? below).or (nearest? above) := by
  rw [nearest?, List.reverse_append, List.findSome?_append, nearest?, nearest?]

theorem nearest?_singleton (h : Header) : nearest? [h] = h.content := by
  simp [nearest?]

theorem nearest?_cons (h : Header) (line : List Header) :
    nearest? (h :: line) = (nearest? line).or h.content := by
  rw [← List.singleton_append, nearest?_append, nearest?_singleton]

/-- Whether nodes of an explicit content type are writable. -/
def ContentType.isWritable : ContentType → Bool
  | nonconfig => false
  | config | all => true

theorem ContentType.elim_isWritable_eq_false_iff {content : Option ContentType} :
    content.elim true isWritable = false ↔ content = some .nonconfig := by
  rcases content with - | - | - | - <;> simp [isWritable]

/-- An explicit content type is a declaration; a node without one takes what is above it. -/
theorem Header.effective_visibility (h : Header) (above : Bool) :
    h.visibility.effective above = h.content.elim above ContentType.isWritable := by
  rw [visibility]
  rcases h.content with - | - | - | - <;> rfl

namespace Node.Line

variable {n y z : Node} {above below line : List Header}

theorem trans (hy : n.Line above y) (hz : y.Line below z) : n.Line (above ++ below) z := by
  induction hy with
  | here => exact hz
  | child hc hk _ ih => exact .child hc hk (ih hz)

/-- A line with the header above it ends in the header of its last node. -/
theorem exists_cons_eq (h : n.Line line z) :
    ∃ before, n.header :: line = before ++ [z.header] := by
  induction h with
  | here n => exact ⟨[], rfl⟩
  | @child n _ _ _ _ _ _ ih =>
    obtain ⟨before, e⟩ := ih
    exact ⟨n.header :: before, by rw [e, List.cons_append]⟩

end Node.Line

/-! ## What becomes of the nodes on a line -/

namespace Siblings

variable {f : Siblings} {c : Node} {kind : Kind}

/-- A child in the data tree is found under its name, with all that is below it. -/
theorem exists_get?_slots {s : Schema} {parent : NodeId} {path : String} {start : Nat}
    (hf : f.forest.Planted s parent path start) (hn : f.localNames.Nodup) (hc : c ∈ f.toList)
    (hk : c.header.kind? = some kind) :
    ∃ j, (f.forest.slots start).get? c.header.localName = some j ∧
      (c.tree kind).Planted s c.header.localName (Path.child path c.header.localName.text)
        (some parent) j := by
  induction f generalizing start with
  | nil => cases hc
  | cons h children rest _ ihr =>
    obtain ⟨hnot, hn⟩ := List.nodup_cons.1 hn
    cases hkh : h.kind? with
    | none =>
      simp only [forest, hkh] at hf ⊢
      rcases List.mem_cons.1 hc with rfl | hc
      · cases hkh.symm.trans hk
      · exact ihr hf hn hc
    | some k =>
      simp only [forest, hkh] at hf ⊢
      obtain ⟨hnode, hbelow, hrest⟩ := hf
      rw [Forest.slots, Entries.get?_cons]
      rcases List.mem_cons.1 hc with rfl | hc
      · cases hkh.symm.trans hk
        exact ⟨start, if_pos rfl, hnode, hbelow⟩
      · have hne : h.localName ≠ c.header.localName := fun e =>
          hnot (e ▸ localName_mem_localNames hc)
        rw [if_neg hne]
        exact ihr hrest hn hc

end Siblings

/-- A planted node has the visibility of its content type, or that of its parent. -/
theorem Node.writable_of_planted {n : Node} {kind : Kind} {s : Schema} {name : Name}
    {path : String} {parent : Option NodeId} {i : Nat}
    (ht : (n.tree kind).Planted s name path parent i) :
    s.writable i = n.header.content.elim (parent.elim true s.writable) ContentType.isWritable := by
  rw [Schema.writable_eq, ht.node, ← Header.effective_visibility]
  rfl

namespace Node.Line

variable {n y z : Node} {above below line : List Header} {s : Schema}

theorem mem_nodes_remaining (h : n.Line line z) {m : Node} (hm : m ∈ z.remaining.nodes) :
    m ∈ n.remaining.nodes := by
  induction h with
  | here => exact hm
  | child hc hk _ ih =>
    obtain ⟨kind, hk⟩ := Option.isSome_iff_exists.1 hk
    have hrem := Siblings.remaining_mem_toList hc hk
    exact List.mem_cons_of_mem _ (Siblings.mem_nodes_of_mem_toList hrem (ih hm))

/-- All nodes on a line from a node in the data tree are in it. -/
theorem isSome_kind? (h : n.Line line z) (hn : n.header.kind?.isSome) :
    z.header.kind?.isSome := by
  induction h with
  | here => exact hn
  | child _ hk _ ih => exact ih hk

/-- A line leads on where its first node is planted. The node at its end has the visibility of the
nearest explicit content type on the line, or else that of the first one. -/
theorem exists_follow (h : n.Line line z) {kind : Kind} {name : Name} {path : String}
    {parent : Option NodeId} {i : Nat}
    (ht : (n.remaining.tree kind).Planted s name path parent i)
    (hn : ∀ m ∈ n.remaining.nodes, m.children.localNames.Nodup) :
    ∃ j, s.follow i (line.map Header.localName) = some j ∧
      s.writable j = (nearest? line).elim (s.writable i) ContentType.isWritable := by
  induction h generalizing kind name path parent i with
  | here => exact ⟨i, rfl, rfl⟩
  | @child n c z line hc hk h ih =>
    obtain ⟨kind, hk⟩ := Option.isSome_iff_exists.1 hk
    have hrem := Siblings.remaining_mem_toList hc hk
    obtain ⟨ic, hslot, htc⟩ :=
      Siblings.exists_get?_slots ht.below (hn _ List.mem_cons_self) hrem hk
    have hnc : ∀ m ∈ c.remaining.nodes, m.children.localNames.Nodup := fun m hm =>
      hn m (List.mem_cons_of_mem _ (Siblings.mem_nodes_of_mem_toList hrem hm))
    obtain ⟨j, hfollow, hw⟩ := ih htc hnc
    refine ⟨j, ?_, ?_⟩
    · rw [List.map_cons, Schema.follow, ht.children_eq]
      exact (congrArg (Option.bind · _) hslot).trans hfollow
    · have hwc : s.writable ic = c.header.content.elim (s.writable i) ContentType.isWritable :=
        writable_of_planted htc
      rw [hw, hwc, nearest?_cons]
      cases nearest? line <;> rfl

/-- The node at the end of a line from a loaded node is read-only if the nearest explicit content
type there, that of the loaded node included, is. -/
theorem exists_loaded (h : n.Line line z) (hs : (Source.node n).load.outcome = .ok s) :
    ∃ j, s.follow 0 (line.map Header.localName) = some j ∧
      s.writable j = (nearest? (n.header :: line)).elim true ContentType.isWritable := by
  obtain ⟨kind, hk, hn, rfl⟩ := Source.load_eq_ok_iff.1 hs
  have ht := (n.remaining.tree kind).planted_plant Schema.empty n.header.localName "" none
  obtain ⟨j, hfollow, hw⟩ := h.exists_follow ht hn
  refine ⟨j, hfollow, ?_⟩
  rw [hw, writable_of_planted ht, nearest?_cons]
  cases nearest? line <;> rfl

/-- A part of what can be loaded can be loaded. -/
theorem exists_load_part (h : n.Line line z) (hs : (Source.node n).load.outcome = .ok s) :
    ∃ s', (Source.node z).load.outcome = .ok s' := by
  obtain ⟨kind, hk, hn, -⟩ := Source.load_eq_ok_iff.1 hs
  have hz : z.header.kind?.isSome := h.isSome_kind? (Option.isSome_iff_exists.2 ⟨kind, hk⟩)
  obtain ⟨kind', hk'⟩ := Option.isSome_iff_exists.1 hz
  have hnz : ∀ m ∈ z.remaining.nodes, m.children.localNames.Nodup := fun m hm =>
    hn m (h.mem_nodes_remaining hm)
  exact ⟨_, Source.load_eq_ok_iff.2 ⟨kind', hk', hnz, rfl⟩⟩

/-- Loaded with the whole, a node is read-only if the nearest explicit content type at or above it
is; loaded with a part, if that is so of the nearest one in the part. The two agree unless the part
has none on the way and the one above it makes it read-only. -/
theorem writable_part (hy : n.Line above y) (hz : y.Line below z)
    (hs : (Source.node n).load.outcome = .ok s) :
    ∃ s' i j, (Source.node y).load.outcome = .ok s' ∧
      s.follow 0 ((above ++ below).map Header.localName) = some i ∧
      s'.follow 0 (below.map Header.localName) = some j ∧
      (s.writable i = false ↔ nearest? (n.header :: (above ++ below)) = some .nonconfig) ∧
      (s'.writable j = false ↔ nearest? (y.header :: below) = some .nonconfig) ∧
      (s'.writable j = s.writable i ↔ ¬(nearest? (y.header :: below) = none ∧
        nearest? (n.header :: above) = some .nonconfig)) := by
  obtain ⟨s', hs'⟩ := hy.exists_load_part hs
  obtain ⟨i, hi, hwi⟩ := (hy.trans hz).exists_loaded hs
  obtain ⟨j, hj, hwj⟩ := hz.exists_loaded hs'
  refine ⟨s', i, j, hs', hi, hj, ?_, ?_, ?_⟩
  · rw [hwi, ContentType.elim_isWritable_eq_false_iff]
  · rw [hwj, ContentType.elim_isWritable_eq_false_iff]
  · -- both see the line below `y`, and then `y` itself
    obtain ⟨before, hbefore⟩ := hy.exists_cons_eq
    rw [hwi, hwj, ← List.cons_append, nearest?_append, hbefore, nearest?_append,
      nearest?_singleton, nearest?_cons]
    cases nearest? below with
    | some content => simp
    | none =>
      cases y.header.content with
      | some content => simp
      | none =>
        cases nearest? before with
        | none => simp
        | some content => cases content <;> simp [ContentType.isWritable]

end Node.Line

/-- Counters of a device: a leaf in a container in a read-only container. -/
def dropsNode : Node :=
  ⟨⟨.leaf, some "drops", none, none, false⟩, .nil⟩

def countersNode : Node :=
  ⟨⟨.container, some "counters", none, none, false⟩, .ofList [dropsNode]⟩

def stateNode : Node :=
  ⟨⟨.container, some "state", none, some .nonconfig, false⟩, .ofList [countersNode]⟩

def deviceNode : Node :=
  ⟨⟨.schemaTree, none, none, none, false⟩, .ofList [stateNode]⟩

theorem line_countersNode : deviceNode.Line [stateNode.header, countersNode.header] countersNode :=
  .child List.mem_cons_self rfl (.child List.mem_cons_self rfl (.here _))

theorem writable_part_countersNode : ∃ (s s' : Schema) (i j : NodeId),
    (Source.node deviceNode).load.outcome = .ok s ∧
    deviceNode.Line [stateNode.header, countersNode.header] countersNode ∧
    countersNode.Line [dropsNode.header] dropsNode ∧
    (Source.node countersNode).load.outcome = .ok s' ∧
    s.follow 0 [some "state", some "counters", some "drops"] = some i ∧
    s'.follow 0 [some "drops"] = some j ∧ s.writable i = false ∧ s'.writable j = true := by
  have hz : countersNode.Line [dropsNode.header] dropsNode :=
    .child List.mem_cons_self rfl (.here _)
  obtain ⟨s, hs⟩ : ∃ s, (Source.node deviceNode).load.outcome = .ok s := ⟨_, rfl⟩
  obtain ⟨s', i, j, hs', hi, hj, hwi, hwj, -⟩ :=
    Node.Line.writable_part line_countersNode hz hs
  have hnone : nearest? [countersNode.header, dropsNode.header] ≠ some .nonconfig := nofun
  exact ⟨s, s', i, j, hs, line_countersNode, hz, hs', hi, hj, hwi.2 rfl,
    Bool.eq_true_of_not_eq_false (mt hwj.1 hnone)⟩

/-- The nearest content type makes the counters read-only, but not when loaded on their own. -/
theorem writable_countersNode : ∃ s s' : Schema,
    (Source.node deviceNode).load.outcome = .ok s ∧
    (Source.node countersNode).load.outcome = .ok s' ∧
    deviceNode.Line [stateNode.header, countersNode.header] countersNode ∧
    nearest? [deviceNode.header, stateNode.header, countersNode.header] = some .nonconfig ∧
    s.follow 0 [some "state", some "counters"] = some 2 ∧ s.writable 2 = false ∧
    s'.follow 0 [] = some 0 ∧ s'.writable 0 = true :=
  ⟨_, _, rfl, rfl, line_countersNode, rfl, rfl, rfl, rfl, rfl⟩

end Yang

end DataTree
