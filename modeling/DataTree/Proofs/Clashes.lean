import DataTree.Yang.Load

/-!
# Name clashes among schema nodes

Loading leaves out what is outside the data tree (`Siblings.remaining`) and refuses a child that
has the name of an elder sibling. Children are checked in the order of `Siblings.turns`, each after
all that is below it; loading stops at the first clash and otherwise gives `Siblings.forest`
(`Siblings.load_outcome`). There is a clash exactly if some node has two children of one name
(`Siblings.clash?_eq_none_iff`).
-/

namespace DataTree.Yang

namespace Siblings

/-- What is left without the nodes outside the data tree and all that is below them. -/
def remaining : Siblings → Siblings
  | nil => nil
  | cons h children rest =>
    if h.kind?.isSome then cons h children.remaining rest.remaining else rest.remaining

/-- The nodes at all levels in pre-order. -/
def nodes : Siblings → List Node
  | nil => []
  | cons h children rest => ⟨h, children⟩ :: (children.nodes ++ rest.nodes)

def localNames : Siblings → List Name
  | nil => []
  | cons h _ rest => h.localName :: rest.localNames

/-- The siblings in the data tree. -/
def forest : Siblings → Forest
  | nil => .nil
  | cons h children rest =>
    match h.kind? with
    | none => rest.forest
    | some kind => .cons h.localName kind h.visibility children.forest rest.forest

end Siblings

namespace Node

def remaining (n : Node) : Node :=
  ⟨n.header, n.children.remaining⟩

/-- The node itself and all nodes below it. -/
def nodes (n : Node) : List Node :=
  n :: n.children.nodes

def tree (n : Node) (kind : Kind) : Tree :=
  ⟨kind, n.header.visibility, n.children.forest⟩

end Node

/-! ## Nodes of the tree and what remains of them -/

namespace Siblings

variable {f : Siblings} {h : Header} {kind : Kind} {c m : Node}

theorem localName_mem_localNames (hc : c ∈ f.toList) : c.header.localName ∈ f.localNames := by
  induction f with
  | nil => cases hc
  | cons h children rest _ ihr =>
    rcases List.mem_cons.1 hc with rfl | hc
    · exact List.mem_cons_self
    · exact List.mem_cons_of_mem _ (ihr hc)

theorem mem_nodes_of_mem_toList (hc : c ∈ f.toList) (hm : m ∈ c.nodes) : m ∈ f.nodes := by
  induction f with
  | nil => cases hc
  | cons h children rest _ ihr =>
    rcases List.mem_cons.1 hc with rfl | hc
    · exact List.mem_cons.2 ((List.mem_cons.1 hm).imp_right (List.mem_append_left _))
    · exact List.mem_cons_of_mem _ (List.mem_append_right _ (ihr hc))

theorem remaining_cons_of_none (hk : h.kind? = none) (children rest : Siblings) :
    (cons h children rest).remaining = rest.remaining := by
  rw [remaining, hk]
  rfl

theorem remaining_cons_of_some (hk : h.kind? = some kind) (children rest : Siblings) :
    (cons h children rest).remaining = cons h children.remaining rest.remaining := by
  rw [remaining, hk]
  rfl

theorem exists_of_mem_nodes_remaining (hm : m ∈ f.remaining.nodes) :
    ∃ m₀ ∈ f.nodes, m₀.remaining = m := by
  induction f with
  | nil => cases hm
  | cons h children rest ihc ihr =>
    simp only [nodes, List.mem_cons, List.mem_append, or_and_right, exists_or, exists_eq_left]
    cases hk : h.kind? with
    | none =>
      rw [remaining_cons_of_none hk] at hm
      exact .inr (.inr (ihr hm))
    | some kind =>
      rw [remaining_cons_of_some hk] at hm
      rcases List.mem_cons.1 hm with rfl | hm
      · exact .inl rfl
      · exact .inr ((List.mem_append.1 hm).imp ihc ihr)

/-- Children in the data tree remain. -/
theorem remaining_mem_toList (hc : c ∈ f.toList) (hk : c.header.kind? = some kind) :
    c.remaining ∈ f.remaining.toList := by
  induction f with
  | nil => cases hc
  | cons h children rest _ ihr =>
    rcases List.mem_cons.1 hc with rfl | hc
    · rw [remaining_cons_of_some hk]
      exact List.mem_cons_self
    · cases hkh : h.kind? with
      | none =>
        rw [remaining_cons_of_none hkh]
        exact ihr hc
      | some _ =>
        rw [remaining_cons_of_some hkh]
        exact List.mem_cons_of_mem _ (ihr hc)

end Siblings

/-- What remains are nodes of the tree without some of what is below them. -/
theorem Node.exists_of_mem_nodes_remaining {n m : Node} (hm : m ∈ n.remaining.nodes) :
    ∃ m₀ ∈ n.nodes, m₀.remaining = m := by
  rcases List.mem_cons.1 hm with rfl | hm
  · exact ⟨n, List.mem_cons_self, rfl⟩
  · obtain ⟨m₀, hm₀, e⟩ := Siblings.exists_of_mem_nodes_remaining hm
    exact ⟨m₀, List.mem_cons_of_mem _ hm₀, e⟩

/-! ## The order of the checks -/

/-- A child of the node at `path` when it is checked against its elder siblings. -/
structure Turn where
  path : String
  elders : List Header
  header : Header

/-- The fault of a child that has the name of an elder sibling, with the first such one. -/
def Turn.clash? (t : Turn) : Option Fault :=
  (t.elders.find? fun elder => elder.localName = t.header.localName).map fun elder =>
    .declaredTwice (Path.child t.path t.header.localName.text) elder.qualifiedName
      t.header.qualifiedName

/-- The children at all levels in the order of their checks: each after all that is below it. -/
def Siblings.turns (path : String) (elders : List Header) : Siblings → List Turn
  | nil => []
  | cons h children rest =>
    children.turns (Path.child path h.localName.text) [] ++
      ⟨path, elders, h⟩ :: rest.turns path (elders ++ [h])

/-- The fault of the first child that clashes. -/
def Siblings.clash? (path : String) (elders : List Header) (f : Siblings) : Option Fault :=
  (f.turns path elders).findSome? Turn.clash?

theorem Turn.clash?_eq_none_iff {t : Turn} :
    t.clash? = none ↔ t.header.localName ∉ t.elders.map Header.localName := by
  simp [clash?, List.find?_eq_none]

/-- A clash is with an elder sibling of the same name, and the message tells who the two are. -/
theorem Turn.exists_of_clash? {t : Turn} {fault : Fault} (h : t.clash? = some fault) :
    ∃ elder ∈ t.elders, elder.localName = t.header.localName ∧
      fault = .declaredTwice (Path.child t.path t.header.localName.text) elder.qualifiedName
        t.header.qualifiedName ∧
      fault.message = Path.child t.path t.header.localName.text ++ " is declared twice: " ++
        elder.qualifiedName ++ " and " ++ t.header.qualifiedName := by
  obtain ⟨elder, hfind, rfl⟩ := Option.map_eq_some_iff.1 h
  have hname := List.find?_some hfind
  exact ⟨elder, List.mem_of_find?_eq_some hfind, of_decide_eq_true hname, rfl, rfl⟩

namespace Siblings

theorem clash?_cons (path : String) (elders : List Header) (h : Header)
    (children rest : Siblings) : (cons h children rest).clash? path elders =
      (children.clash? (Path.child path h.localName.text) []).or
        ((Turn.clash? ⟨path, elders, h⟩).or (rest.clash? path (elders ++ [h]))) := by
  rw [clash?, turns, List.findSome?_append, List.findSome?_cons]
  cases Turn.clash? ⟨path, elders, h⟩ <;> rfl

/-- Nothing clashes if no child has the name of an elder one, here or at any level below. -/
theorem clash?_eq_none_iff {f : Siblings} {path : String} {elders : List Header} :
    f.clash? path elders = none ↔
      (∀ name ∈ f.localNames, name ∉ elders.map Header.localName) ∧ f.localNames.Nodup ∧
      ∀ m ∈ f.nodes, m.children.localNames.Nodup := by
  induction f generalizing path elders with
  | nil => simp [clash?, turns, localNames, nodes]
  | cons h children rest ihc ihr =>
    rw [clash?_cons, Option.or_eq_none_iff, Option.or_eq_none_iff, ihc, ihr,
      Turn.clash?_eq_none_iff]
    simp only [localNames, nodes, List.nodup_cons, List.forall_mem_cons, List.forall_mem_append]
    simp only [List.map_append, List.map_cons, List.map_nil, List.mem_append, List.mem_singleton,
      not_or, List.not_mem_nil, not_false_eq_true, implies_true, true_and]
    constructor
    · rintro ⟨⟨hc, hcn⟩, hh, hr, hrd, hrn⟩
      exact ⟨⟨hh, fun name hn => (hr name hn).1⟩, ⟨fun hn => (hr _ hn).2 rfl, hrd⟩, hc, hcn, hrn⟩
    · rintro ⟨⟨hh, hr⟩, ⟨hnot, hrd⟩, hc, hcn, hrn⟩
      exact ⟨⟨hc, hcn⟩, hh, fun name hn => ⟨hr name hn, fun e => hnot (e ▸ hn)⟩, hrd, hrn⟩

/-! ## Loading -/

theorem load_cons_of_none {h : Header} (hk : h.kind? = none) (children rest : Siblings)
    (path : String) (seen : Entries Name Header) :
    ((cons h children rest).load path seen).outcome = (rest.load path seen).outcome := by
  simp only [load, hk, Traced.bind_outcome]
  rfl

theorem load_cons_of_some {h : Header} {kind : Kind} (hk : h.kind? = some kind)
    (children rest : Siblings) (path : String) (seen : Entries Name Header) :
    ((cons h children rest).load path seen).outcome = do
      let below ← (children.load (Path.child path h.localName.text) []).outcome
      match seen.get? h.localName with
      | some elder =>
        throw (.declaredTwice (Path.child path h.localName.text) elder.qualifiedName
          h.qualifiedName)
      | none =>
        let after ← (rest.load path (seen.put h.localName h)).outcome
        return .cons h.localName kind h.visibility below after := by
  simp only [load, hk, Traced.bind_outcome]
  refine congrArg _ (funext fun below => ?_)
  cases seen.get? h.localName with
  | some elder => rfl
  | none =>
    simp only [Traced.bind_outcome]
    rfl

/-- Loading stops at the first clash; without one, it gives all that is in the data tree. -/
theorem load_outcome (f : Siblings) (path : String) (elders : List Header)
    {seen : Entries Name Header}
    (hseen : ∀ name, seen.get? name = elders.find? fun elder => elder.localName = name) :
    (f.load path seen).outcome =
      (f.remaining.clash? path elders).elim (.ok f.remaining.forest) .error := by
  induction f generalizing path elders seen with
  | nil => rfl
  | cons h children rest ihc ihr =>
    cases hk : h.kind? with
    | none =>
      rw [load_cons_of_none hk, ihr path elders hseen, remaining_cons_of_none hk]
    | some kind =>
      rw [load_cons_of_some hk, remaining_cons_of_some hk, clash?_cons, forest, hk,
        ihc _ [] fun name => rfl]
      cases children.remaining.clash? (Path.child path h.localName.text) [] with
      | some fault => rfl
      | none =>
        cases hfirst : seen.get? h.localName with
        | some elder =>
          rw [hseen] at hfirst
          rw [Turn.clash?, hfirst]
          rfl
        | none =>
          rw [hseen] at hfirst
          rw [Turn.clash?, hfirst, ihr path (elders ++ [h])]
          · cases rest.remaining.clash? path (elders ++ [h]) <;> rfl
          · intro name
            rw [Entries.get?_put, List.find?_append, hseen]
            by_cases hn : h.localName = name
            · subst hn
              simp [hfirst]
            · simp [hn]

end Siblings

variable {n : Node}

/-- The fault of the first node that clashes below `n`, whose own path is empty. -/
def Node.clash? (n : Node) : Option Fault :=
  n.children.clash? "" []

theorem Node.clash?_eq_none_iff :
    n.clash? = none ↔ ∀ m ∈ n.nodes, m.children.localNames.Nodup := by
  rw [clash?, Siblings.clash?_eq_none_iff, nodes, List.forall_mem_cons]
  exact ⟨fun h => h.2, fun h => ⟨fun _ _ => List.not_mem_nil, h⟩⟩

theorem Source.load_outcome {kind : Kind} (hk : n.header.kind? = some kind) :
    (Source.node n).load.outcome = n.remaining.clash?.elim
      (.ok (Schema.empty.plant (n.remaining.tree kind) n.header.localName "" none)) .error := by
  have hload : (n.children.load "" []).outcome =
      n.remaining.clash?.elim (.ok n.remaining.children.forest) .error :=
    n.children.load_outcome "" [] fun name => rfl
  simp only [Source.load, Node.load, hk, Traced.bind_outcome, Traced.pure_outcome, hload]
  cases n.remaining.clash? <;> rfl

/-- A clash below the younger of two namesakes comes before their own. -/
example :
    let a : Header := ⟨.container, some "a", some "base", none, false⟩
    let b : Header := ⟨.leaf, some "b", some "ext", none, false⟩
    (Source.node ⟨⟨.schemaTree, none, none, none, false⟩,
      .cons a .nil (.cons a (.cons b .nil (.cons b .nil .nil)) .nil)⟩).load.outcome =
        .error (.declaredTwice "/a/b" "ext:b" "ext:b") :=
  rfl

/-- What is loaded is a node in the data tree without clashes below it. -/
theorem Source.load_eq_ok_iff {s : Schema} : (Source.node n).load.outcome = .ok s ↔
    ∃ kind, n.header.kind? = some kind ∧ (∀ m ∈ n.remaining.nodes, m.children.localNames.Nodup) ∧
      s = Schema.empty.plant (n.remaining.tree kind) n.header.localName "" none := by
  rw [← Node.clash?_eq_none_iff]
  cases hk : n.header.kind? with
  | none =>
    have hload : (Source.node n).load.outcome =
        .error (.outsideDataTree n.header.nodeClass.title) := by
      simp only [load, Node.load, hk, Traced.bind_outcome]
      rfl
    simp [hload]
  | some kind =>
    rw [load_outcome hk]
    cases n.remaining.clash? <;> simp [eq_comm]

end DataTree.Yang
