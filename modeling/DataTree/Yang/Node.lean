import DataTree.Kind
import DataTree.Name
import DataTree.Visibility

/-!
# YANG schema nodes

The schema nodes that a YANG data model is made of, as far as the data tree needs them: class,
name, namespace, explicit content type, and whether a leaf's type is a leafref.

Classes derive from one another, so a node may be of several families. Its kind in the data tree
is decided by asking for one family after the other (`Header.kind?`).
-/

namespace DataTree.Yang

/-- The families of classes that matter for the data tree. -/
inductive Family where
  | schemaTree
  | container
  | list
  | choice
  | case
  | leaf
  | leafList
  | anyContent
  | anydata
  | anyxml
  | rpcAction
  | notification
  deriving DecidableEq, Repr

/-- A class with all families that it belongs to, by itself or by a class that it derives from. -/
structure NodeClass where
  title : String
  families : List Family
  deriving DecidableEq, Repr, Inhabited

namespace NodeClass

def isA (c : NodeClass) (f : Family) : Bool :=
  c.families.contains f

def schemaTree : NodeClass :=
  ⟨"SchemaTreeNode", [.schemaTree]⟩

def container : NodeClass :=
  ⟨"ContainerNode", [.container]⟩

def list : NodeClass :=
  ⟨"ListNode", [.list]⟩

def choice : NodeClass :=
  ⟨"ChoiceNode", [.choice]⟩

def case : NodeClass :=
  ⟨"CaseNode", [.case]⟩

def leaf : NodeClass :=
  ⟨"LeafNode", [.leaf]⟩

def leafList : NodeClass :=
  ⟨"LeafListNode", [.leafList]⟩

def anydata : NodeClass :=
  ⟨"AnydataNode", [.anydata, .anyContent]⟩

def anyxml : NodeClass :=
  ⟨"AnyxmlNode", [.anyxml, .anyContent]⟩

def rpcAction : NodeClass :=
  ⟨"RpcActionNode", [.rpcAction, .schemaTree]⟩

def notification : NodeClass :=
  ⟨"NotificationNode", [.notification, .schemaTree]⟩

def input : NodeClass :=
  ⟨"InputNode", []⟩

def output : NodeClass :=
  ⟨"OutputNode", []⟩

def group : NodeClass :=
  ⟨"GroupNode", []⟩

def abstract : NodeClass :=
  ⟨"SchemaNode", []⟩

end NodeClass

inductive ContentType where
  | config
  | nonconfig
  | all
  deriving DecidableEq, Repr

/-- A node without its children. -/
structure Header where
  nodeClass : NodeClass
  name : Name
  nameSpace : Option String
  content : Option ContentType
  leafref : Bool
  deriving DecidableEq, Repr, Inhabited

/-- Siblings in order, by first child and next sibling. -/
inductive Siblings where
  | nil
  | cons (header : Header) (children rest : Siblings)
  deriving DecidableEq, Repr, Inhabited

structure Node where
  header : Header
  children : Siblings
  deriving DecidableEq, Repr, Inhabited

namespace Header

def isA (h : Header) (f : Family) : Bool :=
  h.nodeClass.isA f

/-- The kind in the data tree. Operations and notifications are outside it, and so is what belongs
to no family with a kind. They are schema trees as well, so they are asked for first. -/
def kind? (h : Header) : Option Kind :=
  if h.isA .rpcAction || h.isA .notification then none
  else if h.isA .schemaTree || h.isA .container then some .container
  else if h.isA .list then some .list
  else if h.isA .choice then some .choice
  else if h.isA .case then some .case
  else if h.isA .leaf && h.leafref then some .leafref
  else if h.isA .leaf || h.isA .leafList || h.isA .anyContent then some .leaf
  else none

/-- The name in the data tree, which is empty for a schema tree. -/
def localName (h : Header) : Name :=
  if h.isA .schemaTree then some "" else h.name

/-- The name with its namespace, if there is one. -/
def qualifiedName (h : Header) : String :=
  match h.nameSpace with
  | none | some "" => h.name.text
  | some space => space ++ ":" ++ h.name.text

def visibility (h : Header) : Visibility :=
  match h.content with
  | none => .inherited
  | some .nonconfig => .readOnly
  | some .config | some .all => .writable

end Header

namespace Siblings

def toList : Siblings → List Node
  | nil => []
  | cons header children rest => ⟨header, children⟩ :: rest.toList

def ofList : List Node → Siblings
  | [] => nil
  | n :: rest => cons n.header n.children (ofList rest)

end Siblings

namespace Node

/-- The node that a chain of child indices leads to. -/
def descend? (n : Node) : List Nat → Option Node
  | [] => some n
  | i :: path => n.children.toList[i]?.bind (·.descend? path)

end Node

end DataTree.Yang
