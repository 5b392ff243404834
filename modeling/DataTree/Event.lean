import DataTree.Fault

/-!
# Events

What happens during a request, as its log shows it, and results that come with their events.
-/

namespace DataTree

inductive Level where
  | debug
  | warning
  deriving DecidableEq, Repr

inductive Event where
  /-- Nothing is resolved under a read-only node. -/
  | readOnly (path : String) (policy : Policy)
  /-- A reference of a list to its own keys is left out. -/
  | keyReference (path : String)
  | resolved (path : String) (policy : Policy) (children defects : Nat)
  | defect (path : String) (found : Defect)
  | visited (path : String) (children : Nat)
  | flattened (entities defects : Nat)
  /-- A schema node outside the data tree is left out. -/
  | skipped (title : String) (name : Name)
  deriving DecidableEq, Repr

namespace Event

def level : Event → Level
  | defect .. => .warning
  | _ => .debug

/-- The part of the program that speaks. -/
def logger : Event → String
  | readOnly .. | keyReference .. | resolved .. => "schema_flatten.algorithm.resolver"
  | defect .. | visited .. | flattened .. => "schema_flatten.flattener"
  | skipped .. => "schema_flatten.loaders.yangson"

def message : Event → String
  | readOnly path policy =>
    path ++ " is read-only; no children under " ++ Vocabulary.word policy
  | keyReference path => "Skipping list key reference " ++ path
  | resolved path policy children defects =>
    "Resolved " ++ toString children ++ " children (" ++ toString defects ++ " errors) for " ++
      Path.shown path ++ " under " ++ Vocabulary.word policy
  | defect path d => "Structural error under " ++ Path.shown path ++ ": " ++ d.message
  | visited path children =>
    "Entity " ++ Path.shown path ++ " has " ++ toString children ++ " children"
  | flattened entities defects =>
    "Flattened " ++ toString entities ++ " entities with " ++ toString defects ++
      " structural errors"
  | skipped title name =>
    "Skipping yangson " ++ title ++ " " ++ name.quoted

end Event

/-- An outcome together with the events on the way to it, in order. -/
structure Traced (α : Type) where
  events : List Event
  outcome : Except Fault α

namespace Traced

variable {α β : Type}

def ofExcept (r : Except Fault α) : Traced α :=
  ⟨[], r⟩

def emit (events : List Event) : Traced Unit :=
  ⟨events, .ok ()⟩

/-- The second part starts only if the first succeeds; the events of both are kept. -/
def andThen (x : Traced α) (f : α → Traced β) : Traced β :=
  match x.outcome with
  | .ok a => ⟨x.events ++ (f a).events, (f a).outcome⟩
  | .error fault => ⟨x.events, .error fault⟩

instance : Monad Traced where
  pure a := ⟨[], .ok a⟩
  bind := andThen

instance : MonadExceptOf Fault Traced where
  throw fault := ⟨[], .error fault⟩
  tryCatch x handle :=
    match x.outcome with
    | .ok _ => x
    | .error fault => ⟨x.events ++ (handle fault).events, (handle fault).outcome⟩

instance : MonadLift (Except Fault) Traced where
  monadLift := ofExcept

theorem bind_of_ok {x : Traced α} {a : α} (h : x.outcome = .ok a) (f : α → Traced β) :
    x >>= f = ⟨x.events ++ (f a).events, (f a).outcome⟩ := by
  show x.andThen f = _
  rw [andThen, h]

theorem bind_outcome (x : Traced α) (f : α → Traced β) :
    (x >>= f).outcome = x.outcome >>= fun a => (f a).outcome := by
  show (x.andThen f).outcome = _
  rw [andThen]
  cases x.outcome <;> rfl

theorem pure_outcome (a : α) : (pure a : Traced α).outcome = .ok a := rfl

theorem lift_outcome (r : Except Fault α) : (liftM r : Traced α).outcome = r := rfl

end Traced

end DataTree
