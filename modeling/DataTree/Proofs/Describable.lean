import DataTree.Proofs.Described
import DataTree.Schema.Planting

/-!
# Describing trees

Every well-formed tree has a description: each field is spelled out, and siblings stand in their
order. Read back, it gives the tree (`Tree.ofValue_description`). So a schema is built by planting
any well-formed tree (`Schema.build_description`).
-/

namespace DataTree

/-! ## Spelled out fields -/

namespace Description

def fields (kind : Kind) (config : Value) (children : List (String × Value)) :
    List (String × Value) :=
  [("kind", .str (Vocabulary.word kind)), ("config", config), ("children", .map children)]

variable {kind' : Kind} {config : Value} {children : List (String × Value)}

theorem kind_fields (name : Name) : kind name (fields kind' config children) = .ok kind' := by
  have hmember : (Value.str (Vocabulary.word kind')).member? Kind = some kind' :=
    Vocabulary.ofWord?_word kind'
  have hdeclared : declaredKind name (fields kind' config children) = .ok kind' := by
    simp [declaredKind, fields, Entries.get?_cons, hmember]
  have hreference : isReference (fields kind' config children) = false := by
    simp [isReference, fields, Entries.get?_cons]
  rw [kind, hdeclared]
  cases kind' <;> simp [hreference, bind, Except.bind, pure, Except.pure]

/-- Nothing is wrong with a description if only directories have children in it. -/
theorem header_fields {name : Name} {v : Visibility}
    (hv : visibility name (fields kind' config children) = .ok v)
    (hd : kind'.isDirectory = false → children = []) (path : String) :
    header name path (fields kind' config children) = .ok (kind', v) := by
  have hchecked : checkChildren name (fields kind' config children) = .ok () := by
    simp [checkChildren, fields, Entries.get?_cons]
  have hallowed : (declaresChildren (fields kind' config children) && !kind'.isDirectory) =
      false := by
    cases hk : kind'.isDirectory with
    | true => simp
    | false =>
      rw [hd hk]
      rfl
  rw [header, hchecked, kind_fields, hv]
  simp [hallowed, bind, Except.bind, pure, Except.pure]

end Description

/-- A described node is read back if its children are. -/
theorem Tree.ofValue_fields {kind : Kind} {config : Value} {children : List (String × Value)}
    {name : Name} {v : Visibility} {f : Forest} {path : String}
    (hv : Description.visibility name (Description.fields kind config children) = .ok v)
    (hd : kind.isDirectory = false → children = [])
    (hf : Forest.ofEntries path [] children = .ok f) :
    Tree.ofValue name path (.map (Description.fields kind config children)) = .ok ⟨kind, v, f⟩ := by
  refine Tree.ofValue_map_eq_ok_iff.2 ⟨Description.header_fields hv hd path, ?_⟩
  rw [Description.fields, Forest.ofFields_other (by decide), Forest.ofFields_other (by decide),
    Forest.ofFields_children]
  exact hf

/-! ## Well-formed trees -/

/-- The descriptions of the siblings by name. -/
def Forest.descriptions : Forest → List (String × Value)
  | nil => []
  | cons name kind visibility children rest =>
    (name.text, .map (Description.fields kind (.str (Vocabulary.word visibility))
      children.descriptions)) :: rest.descriptions

def Tree.description (t : Tree) : Value :=
  .map (Description.fields t.kind (.str (Vocabulary.word t.visibility)) t.children.descriptions)

theorem Description.visibility_fields (name : Name) (kind : Kind) (v : Visibility)
    (children : List (String × Value)) :
    visibility name (fields kind (.str (Vocabulary.word v)) children) = .ok v := by
  have hmember : (Value.str (Vocabulary.word v)).member? Visibility = some v :=
    Vocabulary.ofWord?_word v
  simp [visibility, fields, Entries.get?_cons, hmember]

theorem Forest.ofEntries_descriptions {f : Forest} (hw : f.WellFormed) {seen : List String}
    (hseen : ∀ key ∈ seen, some key ∉ f.names) (path : String) :
    Forest.ofEntries path seen f.descriptions = .ok f := by
  induction f generalizing seen path with
  | nil => simp [descriptions, ofEntries]
  | cons name kind visibility children rest ihc ihr =>
    obtain ⟨hname, hnot, hbare, hwc, hwr⟩ := hw
    obtain ⟨key, rfl⟩ := Option.isSome_iff_exists.1 hname
    have hfresh : key ∉ seen := fun hm => hseen key hm List.mem_cons_self
    have hseen' : ∀ k ∈ key :: seen, some k ∉ rest.names :=
      List.forall_mem_cons.2 ⟨hnot, fun k hk hm => hseen k hk (List.mem_cons_of_mem _ hm)⟩
    have hbare' : kind.isDirectory = false → children.descriptions = [] := fun hd => by
      rw [hbare hd, descriptions]
    have htree := Tree.ofValue_fields
      (Description.visibility_fields (some key) kind visibility children.descriptions) hbare'
      (ihc hwc (List.forall_mem_nil _) (Path.child path key))
    exact (ofEntries_cons_eq_ok_iff hfresh).2 ⟨_, _, htree, ihr hwr hseen' path, rfl⟩

theorem Tree.ofValue_description {t : Tree} (hw : t.WellFormed) (name : Name) (path : String) :
    Tree.ofValue name path t.description = .ok t := by
  have hbare : t.kind.isDirectory = false → t.children.descriptions = [] := fun hd => by
    rw [hw.bare hd, Forest.descriptions]
  exact Tree.ofValue_fields (Description.visibility_fields name ..) hbare
    (Forest.ofEntries_descriptions hw.children (List.forall_mem_nil _) path)

theorem Schema.build_description {t : Tree} (hw : t.WellFormed) (s₀ : Schema) (name : Name)
    (parent : Option NodeId) : s₀.build t.description name parent =
      .ok (s₀.plant t name (s₀.newPath name parent) parent) := by
  rw [build, Tree.ofValue_description hw]
  rfl

end DataTree
