import DataTree.Proofs.Clashes
import DataTree.Proofs.Classes
import DataTree.Proofs.Describable
import DataTree.Proofs.Wiring

/-!
# Loading as building

What loading is to give is told by the mapping of nodes to kinds (`Header.Maps`). `n.Remains left`:
`left` is `n` without the nodes that are mapped to none and all that is below them.
`n.Described kind description`: the description has an entry for each node, with its kind as a word
and its explicit content type as a truth value.

Where no names clash in what remains, loading gives what building its description gives; otherwise
it tells the first clash (`Node.load_agrees`).
-/

namespace DataTree.Yang

/-- An explicit content type as a description declares it. -/
def Header.config (h : Header) : Value :=
  match h.content with
  | none => .null
  | some .nonconfig => .bool false
  | some .config | some .all => .bool true

theorem Header.visibility_fields (h : Header) (kind : Kind) (children : List (String × Value))
    (name : Name) :
    Description.visibility name (Description.fields kind h.config children) = .ok h.visibility := by
  simp only [Description.visibility, Description.fields, Entries.get?_cons, config, visibility]
  rcases h.content with - | - | - | - <;> rfl

/-! ## What remains -/

/-- The second siblings are the first ones without those that are mapped to no kind, at all
levels. -/
inductive Siblings.Remains : Siblings → Siblings → Prop
  | nil : Remains nil nil
  | skip {h : Header} {children rest left : Siblings} : (∀ kind, ¬h.Maps kind) →
      Remains rest left → Remains (cons h children rest) left
  | keep {h : Header} {kind : Kind} {children rest below left : Siblings} : h.Maps kind →
      Remains children below → Remains rest left →
      Remains (cons h children rest) (cons h below left)

structure Node.Remains (n left : Node) : Prop where
  header : left.header = n.header
  children : n.children.Remains left.children

theorem Siblings.remains_iff {f left : Siblings} (hf : ∀ m ∈ f.nodes, m.Lawful) :
    f.Remains left ↔ left = f.remaining := by
  induction f generalizing left with
  | nil =>
    constructor
    · rintro ⟨⟩
      rfl
    · rintro rfl
      exact .nil
  | cons h children rest ihc ihr =>
    obtain ⟨hh, hbelow⟩ := List.forall_mem_cons.1 hf
    obtain ⟨hc, hr⟩ := List.forall_mem_append.1 hbelow
    cases hk : h.kind? with
    | none =>
      have hnone := (Header.kind?_eq_none_iff hh.nodeClass).1 hk
      rw [remaining_cons_of_none hk]
      constructor
      · intro hrem
        cases hrem with
        | skip _ hrest => exact (ihr hr).1 hrest
        | keep hm _ _ => exact (hnone _ hm).elim
      · rintro rfl
        exact .skip hnone ((ihr hr).2 rfl)
    | some kind =>
      have hmaps := (Header.kind?_eq_some_iff hh.nodeClass).1 hk
      rw [remaining_cons_of_some hk]
      constructor
      · intro hrem
        cases hrem with
        | skip hnone _ => exact (hnone kind hmaps).elim
        | keep _ hbelow hrest => rw [(ihc hc).1 hbelow, (ihr hr).1 hrest]
      · rintro rfl
        exact .keep hmaps ((ihc hc).2 rfl) ((ihr hr).2 rfl)

theorem Node.remains_iff {n left : Node} (hn : ∀ m ∈ n.nodes, m.Lawful) :
    n.Remains left ↔ left = n.remaining := by
  have hiff : ∀ {f}, n.children.Remains f ↔ f = n.children.remaining :=
    Siblings.remains_iff (List.forall_mem_cons.1 hn).2
  constructor
  · rintro ⟨hheader, hchildren⟩
    rw [remaining, ← hheader, ← hiff.1 hchildren]
  · rintro rfl
    exact ⟨rfl, hiff.2 rfl⟩

/-! ## Descriptions -/

/-- The siblings have these descriptions by name. -/
inductive Siblings.Described : Siblings → List (String × Value) → Prop
  | nil : Described nil []
  | cons {h : Header} {kind : Kind} {key : String} {children rest : Siblings}
      {below after : List (String × Value)} : h.Maps kind → h.localName = some key →
      Described children below → Described rest after →
      Described (cons h children rest)
        ((key, .map (Description.fields kind h.config below)) :: after)

structure Node.Described (n : Node) (kind : Kind) (description : Value) : Prop where
  maps : n.header.Maps kind
  exists_eq : ∃ below, n.children.Described below ∧
    description = .map (Description.fields kind n.header.config below)

namespace Siblings

variable {f : Siblings} {entries : List (String × Value)}

/-- What remains can be described if all of it has names. -/
theorem Remains.exists_described {left : Siblings} (hrem : f.Remains left)
    (hnamed : ∀ m ∈ left.nodes, m.header.localName.isSome) :
    ∃ entries, left.Described entries := by
  induction hrem with
  | nil => exact ⟨[], .nil⟩
  | skip _ _ ih => exact ih hnamed
  | keep hm _ _ ihc ihr =>
    obtain ⟨hh, hbelow⟩ := List.forall_mem_cons.1 hnamed
    obtain ⟨hc, hr⟩ := List.forall_mem_append.1 hbelow
    obtain ⟨key, hkey⟩ := Option.isSome_iff_exists.1 hh
    obtain ⟨below, hbelow⟩ := ihc hc
    obtain ⟨after, hafter⟩ := ihr hr
    exact ⟨_, .cons hm hkey hbelow hafter⟩

theorem Described.eq_nil (hd : Siblings.nil.Described entries) : entries = [] := by
  cases hd
  rfl

/-- Descriptions of siblings with names of their own are read back. -/
theorem Described.ofEntries (hd : f.Described entries) (hf : ∀ m ∈ f.nodes, m.Lawful)
    (hn : ∀ m ∈ f.nodes, m.children.localNames.Nodup) (hnodup : f.localNames.Nodup)
    {seen : List String} (hseen : ∀ key ∈ seen, some key ∉ f.localNames) (path : String) :
    Forest.ofEntries path seen entries = .ok f.forest := by
  induction hd generalizing seen path with
  | nil => simp [forest, Forest.ofEntries]
  | @cons h kind key children rest below after hm hkey hd _ ihc ihr =>
    obtain ⟨hh, hbelow⟩ := List.forall_mem_cons.1 hf
    obtain ⟨hc, hr⟩ := List.forall_mem_append.1 hbelow
    obtain ⟨hnh, hnbelow⟩ := List.forall_mem_cons.1 hn
    obtain ⟨hnc, hnr⟩ := List.forall_mem_append.1 hnbelow
    rw [localNames, hkey] at hnodup hseen
    obtain ⟨hnot, hnodup⟩ := List.nodup_cons.1 hnodup
    have hfresh : key ∉ seen := fun hkey => hseen key hkey List.mem_cons_self
    have hseen' : ∀ k ∈ key :: seen, some k ∉ rest.localNames :=
      List.forall_mem_cons.2 ⟨hnot, fun k hk hm => hseen k hk (List.mem_cons_of_mem _ hm)⟩
    have hbare : kind.isDirectory = false → below = [] := fun hdir => by
      have hnil : children = .nil := hh.bare (hm.suits.isTerminal hh.nodeClass hdir)
      exact Described.eq_nil (hnil ▸ hd)
    have hchildren := ihc hc hnc hnh (List.forall_mem_nil _) (Path.child path key)
    have htree := Tree.ofValue_fields (h.visibility_fields kind below (some key)) hbare hchildren
    have hsiblings := ihr hr hnr hnodup hseen' path
    rw [forest, (Header.kind?_eq_some_iff hh.nodeClass).2 hm, hkey]
    exact (Forest.ofEntries_cons_eq_ok_iff hfresh).2 ⟨_, _, htree, hsiblings, rfl⟩

end Siblings

variable {n : Node}

/-- A description without clashes is built to the tree that it describes. -/
theorem Node.Described.build {kind : Kind} {description : Value}
    (hd : n.Described kind description) (hn : ∀ m ∈ n.nodes, m.Lawful)
    (hnodup : ∀ m ∈ n.nodes, m.children.localNames.Nodup) :
    Schema.empty.build description (some "") none =
      .ok (Schema.empty.plant (n.tree kind) (some "") "" none) := by
  obtain ⟨below, hbelow, rfl⟩ := hd.exists_eq
  obtain ⟨hself, hrest⟩ := List.forall_mem_cons.1 hn
  obtain ⟨hdistinct, hnodup⟩ := List.forall_mem_cons.1 hnodup
  have hbare : kind.isDirectory = false → below = [] := fun hdir => by
    have hnil : n.children = .nil := hself.bare (hd.maps.suits.isTerminal hself.nodeClass hdir)
    exact Siblings.Described.eq_nil (hnil ▸ hbelow)
  have hchildren := hbelow.ofEntries hrest hnodup hdistinct (List.forall_mem_nil _)
    (Schema.empty.newPath (some "") none)
  have hvisibility := n.header.visibility_fields kind below (some "")
  have htree := Tree.ofValue_fields hvisibility hbare hchildren
  exact Schema.build_eq_ok_iff.2 ⟨_, htree, rfl⟩

/-- Without some of its children, a lawful node is lawful. -/
theorem Node.lawful_of_mem_nodes_remaining (hn : ∀ m ∈ n.nodes, m.Lawful) {m : Node}
    (hm : m ∈ n.remaining.nodes) : m.Lawful := by
  obtain ⟨m₀, hm₀, rfl⟩ := Node.exists_of_mem_nodes_remaining hm
  refine ⟨(hn m₀ hm₀).nodeClass, fun ht => ?_⟩
  rw [remaining, (hn m₀ hm₀).bare ht, Siblings.remaining]

/-! ## Loading -/

/-- What loading `n` comes to when `left` is what remains of it. -/
structure Node.LoadsAs (n left : Node) : Prop where
  remains : ∀ m, n.Remains m ↔ m = left
  /-- Schema trees have the empty name in the data tree, and other nodes have their own. -/
  names : ∀ m ∈ left.nodes, (m.header.IsPlainTree → m.header.localName = some "") ∧
    (¬m.header.isA .schemaTree → m.header.localName = m.header.name)
  /-- It fails if some node has two children of one name. -/
  fails : (∃ fault, (Source.node n).load.outcome = .error fault) ↔
    ∃ m ∈ left.nodes, ¬m.children.localNames.Nodup
  first : ∀ fault, (Source.node n).load.outcome = .error fault ↔ left.clash? = some fault
  message : ∀ fault, left.clash? = some fault → ∃ t ∈ left.children.turns "" [],
    ∃ elder ∈ t.elders, elder.localName = t.header.localName ∧
      fault = .declaredTwice (Path.child t.path t.header.localName.text) elder.qualifiedName
        t.header.qualifiedName ∧
      fault.message = Path.child t.path t.header.localName.text ++ " is declared twice: " ++
        elder.qualifiedName ++ " and " ++ t.header.qualifiedName
  /-- Otherwise it gives what the description is built to. -/
  built : (∀ m ∈ left.nodes, m.children.localNames.Nodup) →
    ∃ s, (Source.node n).load.outcome = .ok s ∧
      ∀ description, left.Described .container description →
        Schema.empty.build description (some "") none = .ok s
  described : (∀ m ∈ left.nodes, m.header.localName.isSome) →
    ∃ description, left.Described .container description

/-- Loading the root of a data model fails exactly if two children of one name remain somewhere, and
then tells the first clash. Otherwise all that remains is loaded, and is what its description is
built to. -/
theorem Node.load_agrees (hroot : n.header.IsPlainTree) (hn : ∀ m ∈ n.nodes, m.Lawful) :
    ∃ left, n.LoadsAs left := by
  have hkind := (Header.kind?_eq_some_iff (hn n List.mem_cons_self).nodeClass).2 hroot.maps
  have hload := Source.load_outcome hkind
  rw [hroot.localName] at hload
  have hfirst : ∀ fault,
      (Source.node n).load.outcome = .error fault ↔ n.remaining.clash? = some fault := by
    intro fault
    rw [hload]
    cases n.remaining.clash? <;> simp
  refine ⟨n.remaining, fun m => Node.remains_iff hn,
    fun m _ => ⟨fun ht => ht.localName, fun ht => if_neg ht⟩, ?fails, hfirst,
    fun fault hfault => ?message, fun hnodup => ?built, fun hnamed => ?described⟩
  case fails =>
    rw [exists_congr hfirst, ← Option.isSome_iff_exists, ← Option.ne_none_iff_isSome, ne_eq,
      Node.clash?_eq_none_iff]
    simp only [not_forall, exists_prop]
  case message =>
    obtain ⟨t, ht, hclash⟩ := List.exists_of_findSome?_eq_some hfault
    exact ⟨t, ht, t.exists_of_clash? hclash⟩
  case built =>
    rw [Node.clash?_eq_none_iff.2 hnodup] at hload
    refine ⟨_, hload, fun description hd => hd.build (fun m hm => ?_) hnodup⟩
    exact lawful_of_mem_nodes_remaining hn hm
  case described =>
    have hrem := ((Node.remains_iff hn).2 rfl).children
    obtain ⟨below, hbelow⟩ := hrem.exists_described (List.forall_mem_cons.1 hnamed).2
    exact ⟨_, hroot.maps, below, hbelow, rfl⟩

/-- A data model with a node of each sort, to which another module adds a list in `top`. The
operation has two children of one name, and the notification is named as a container. -/
def topNode (added : String) : Node :=
  ⟨⟨.schemaTree, none, none, none, false⟩, .ofList [
    ⟨⟨.rpcAction, some "reset", some "base", none, false⟩, .ofList [
      ⟨⟨.input, some "input", some "base", none, false⟩, .nil⟩,
      ⟨⟨.input, some "input", some "base", none, false⟩, .nil⟩]⟩,
    ⟨⟨.container, some "top", some "base", some .config, false⟩, .ofList [
      ⟨⟨.container, some "config", none, none, false⟩, .ofList [
        ⟨⟨.leaf, some "mtu", some "base", none, false⟩, .nil⟩,
        ⟨⟨.leaf, some "peer", some "base", none, true⟩, .nil⟩,
        ⟨⟨.leafList, some "tags", some "base", none, false⟩, .nil⟩]⟩,
      ⟨⟨.choice, some "mode", some "base", none, false⟩, .ofList [
        ⟨⟨.case, some "free", some "base", none, false⟩, .ofList [
          ⟨⟨.anydata, some "blob", some "base", none, false⟩, .nil⟩]⟩]⟩,
      ⟨⟨.list, some added, some "ext", some .nonconfig, false⟩, .nil⟩]⟩,
    ⟨⟨.notification, some "top", some "base", none, false⟩, .nil⟩]⟩

/-- An addition named as its elder sibling is a clash; any other one is loaded. -/
theorem load_agrees_topNode :
    ((topNode "config").header.IsPlainTree ∧ (∀ m ∈ (topNode "config").nodes, m.Lawful) ∧
      (∃ left, (topNode "config").LoadsAs left) ∧
      (Source.node (topNode "config")).load.outcome =
        .error (.declaredTwice "/top/config" "config" "ext:config")) ∧
    (topNode "state").header.IsPlainTree ∧ (∀ m ∈ (topNode "state").nodes, m.Lawful) ∧
      (∃ left, (topNode "state").LoadsAs left) ∧
      ∃ s, (Source.node (topNode "state")).load.outcome = .ok s ∧
        s.nodes.toList.map (fun n => (n.path, n.kind)) = [("", .container), ("/top", .container),
          ("/top/config", .container), ("/top/config/mtu", .leaf), ("/top/config/peer", .leafref),
          ("/top/config/tags", .leaf), ("/top/mode", .choice), ("/top/mode/free", .case),
          ("/top/mode/free/blob", .leaf), ("/top/state", .list)] := by
  have hroot : ∀ added, (topNode added).header.IsPlainTree := fun _ =>
    ⟨rfl, Bool.false_ne_true, Bool.false_ne_true⟩
  have hconfig : ∀ m ∈ (topNode "config").nodes, m.Lawful := by decide
  have hstate : ∀ m ∈ (topNode "state").nodes, m.Lawful := by decide
  exact ⟨⟨hroot _, hconfig, Node.load_agrees (hroot _) hconfig, rfl⟩, hroot _, hstate,
    Node.load_agrees (hroot _) hstate, _, rfl, rfl⟩

end DataTree.Yang
