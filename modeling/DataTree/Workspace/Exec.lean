import DataTree.Workspace.Basic

/-!
# Commands at work

A command gives a reply and the workspace after it, or a fault; a fault leaves the workspace as it
was. What a resolution reports is how the schema stands at that moment.
-/

namespace DataTree

/-- The change of a node that an edit asks for. -/
def Edit.change (w : Workspace) : Edit → Except Fault (Node → Node)
  | name s => return fun n => { n with name := s }
  | path s => return fun n => { n with path := s }
  | kind v => do
    let k ← v.member Kind
    return fun n => { n with kind := k }
  | visibility v => do
    let declared ← v.member Visibility
    return fun n => { n with visibility := declared }
  | parent label => do
    let p ← w.node? label
    return fun n => { n with parent := p }

namespace Workspace

/-! ## Changing the schema -/

def create (w : Workspace) (label : String) (name : Name) (path : String) (kind : Value)
    (visibility : Option Value) (parent : Option String) : Except Fault (NodeId × Workspace) := do
  let v ← match visibility with
    | some v => v.member Visibility
    | none => pure .inherited
  let p ← w.node? parent
  let k ← kind.member Kind
  let i := w.schema.size
  return (i, w.install (w.schema.push ⟨name, k, v, path, [], p⟩) label i)

def build (w : Workspace) (label : String) (name : Name) (description : Value)
    (parent : Option String) : Except Fault (NodeId × Workspace) := do
  let p ← w.node? parent
  let schema ← w.schema.build description name p
  let i := w.schema.size
  return (i, w.install schema label i)

def locate (w : Workspace) (label origin : String) (keys : List String) :
    Except Fault (NodeId × Workspace) := do
  let i ← (w.schema.descend (← w.node origin) keys).mapError .missingKey
  return (i, w.bind label i)

def attach (w : Workspace) (parent key child : String) : Except Fault (NodeId × Workspace) := do
  let i ← w.node parent
  let c ← w.node child
  return (i, { w with schema := w.schema.attach i (some key) c })

def detach (w : Workspace) (parent key : String) : Except Fault (NodeId × Workspace) := do
  let i ← w.node parent
  if (w.schema.node i).children.has (some key) then
    return (i, { w with schema := w.schema.detach i (some key) })
  else throw (.missingKey key)

def edit (w : Workspace) (label : String) (change : Edit) : Except Fault (NodeId × Workspace) := do
  let i ← w.node label
  return (i, { w with schema := w.schema.modify i (← change.change w) })

/-! ## Plans and walks -/

def addPlan (w : Workspace) (label : String) (plan : Plan) : Workspace :=
  { w with plans := w.plans.put label plan }

def addWalk (w : Workspace) (label : String) (walk : Walk) : Workspace :=
  { w with walks := w.walks.put label walk }

/-- Goes on with a walk for up to `count` visits; for none, there need not be a walk. -/
def advance (w : Workspace) (label : String) (count : Nat) : Traced (List Visit × Workspace) := do
  if count = 0 then
    return ([], w)
  let walk ← lookup w.walks label
  let made := walk.take w.schema count
  Traced.emit made.events
  return (made.shown, w.addWalk label made.later)

/-! ## All commands -/

def exec (w : Workspace) : Command → Traced (Reply × Workspace)
  | .create label name path kind visibility parent => do
    let (i, w) ← w.create label name path kind visibility parent
    return (.detail i, w)
  | .build label name description parent => do
    let (i, w) ← w.build label name description parent
    return (.detail i, w)
  | .locate label origin keys => do
    let (i, w) ← w.locate label origin keys
    return (.node i, w)
  | .attach parent key child => do
    let (i, w) ← w.attach parent key child
    return (.children (w.schema.node i).children, w)
  | .detach parent key => do
    let (i, w) ← w.detach parent key
    return (.keys (w.schema.node i).children.keys, w)
  | .edit label change => do
    let (i, w) ← w.edit label change
    return (.detail i, w)
  | .inspect label => return (.detail (← w.node label), w)
  | .dump label => return (.details (w.schema.subtree (← w.node label)), w)
  | .print label => return (.text (w.schema.text (← w.node label)), w)
  | .same label other => return (.truth ((← w.node label) = (← w.node other)), w)
  | .frontier label => return (.nodes (w.schema.frontier (← w.node label)), w)
  | .resolve label policy => do
    return (.childSet (← w.schema.resolveUnder policy (← w.node label)), w)
  | .plan label policy strict => do
    let plan ← Plan.ofValue policy strict
    return (.policy plan.policy, w.addPlan label plan)
  | .resolveWith plan label => do
    let plan ← lookup w.plans plan
    return (.childSet (← plan.resolve w.schema (← w.node label)), w)
  | .flatten plan label => do
    let plan ← lookup w.plans plan
    return (.childSets (← plan.flatten w.schema (← w.node label)), w)
  | .findDefects plan label => do
    let plan ← lookup w.plans plan
    return (.defects (← plan.findDefects w.schema (← w.node label)), w)
  | .walk label plan root => do
    let plan ← lookup w.plans plan
    return (.done, w.addWalk label (plan.walk (← w.node root)))
  | .advance walk count => do
    let (made, w) ← w.advance walk count
    return (.visits made (made.length < count), w)

/-- A command with what came of it and the workspace after it. -/
structure Step where
  command : Command
  reply : Traced Reply
  after : Workspace

/-- Executes one command; after a fault the workspace is the same. -/
def step (w : Workspace) (c : Command) : Step :=
  let r := w.exec c
  match r.outcome with
  | .ok (reply, after) => ⟨c, ⟨r.events, .ok reply⟩, after⟩
  | .error fault => ⟨c, ⟨r.events, .error fault⟩, w⟩

/-- Executes commands in order, whatever comes of each. -/
def run (w : Workspace) : List Command → List Step
  | [] => []
  | c :: rest =>
    let step := w.step c
    step :: step.after.run rest

end Workspace

end DataTree
