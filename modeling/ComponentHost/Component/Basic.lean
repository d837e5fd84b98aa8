import ComponentHost.Component.Metadata
import ComponentHost.Operation.Action

/-!
Instances of components, and the factories that build them.

An instance is told apart from every other by its number; two instances may share the same
identity. What an instance does when it is called is either fixed by the host (`Behaviour`) or up
to whoever built it.
-/

set_option autoImplicit false

namespace ComponentHost

/-- The number of an instance of a component. -/
abbrev InstanceRef := Nat

/-- The number of a process manager. -/
abbrev ManagerRef := Nat

/-- What decides how an instance answers when it is called. -/
inductive Behaviour where
  /-- Every part of the lifecycle succeeds and does nothing. -/
  | passive
  /-- An action on the processes of a manager, if it was built for one. -/
  | processAction (action : ProcessAction) (manager : Option ManagerRef)
  /-- An action on the services of the registry, if it was built for one. -/
  | serviceAction (action : ServiceAction) (attached : Bool)
  /-- Decided outside the host. -/
  | external
  deriving DecidableEq, Repr

/-- An instance of a component. -/
structure Component where
  instanceRef : InstanceRef
  metadata : Metadata
  kind : Kind
  /-- It can be executed, whatever its kind. -/
  executable : Bool
  behaviour : Behaviour
  deriving DecidableEq, Repr

namespace Component

def id (c : Component) : String := c.metadata.id

def name (c : Component) : String := c.metadata.name

/-- The entries that describe a component to a client. -/
def describe (c : Component) : Json :=
  .ofEntries [("id", .str c.metadata.id), ("name", .str c.metadata.name),
    ("description", .str c.metadata.description), ("kind", .str c.kind.text)]

/-- An operation that carries out an action of the host. -/
def operation (ref : InstanceRef) (config : ComponentConfig) (behaviour : Behaviour) : Component :=
  ⟨ref, .ofConfig config, .operation, true, behaviour⟩

end Component

/-- Builds instances of components. -/
inductive Factory where
  | passive
  | processActions (manager : Option ManagerRef)
  | serviceActions (attached : Bool)
  /-- Decided outside the host; the number tells such factories apart. -/
  | external (ref : Nat)
  deriving DecidableEq, Repr

/-- The instance a factory of the host builds; nothing for a factory from outside. -/
def Factory.build? (f : Factory) (ref : InstanceRef) (config : ComponentConfig) :
    Option (Except Error Component) :=
  match f with
  | .passive => some (.ok ⟨ref, .ofConfig config, .plain, false, .passive⟩)
  | .processActions manager => some do
    let action ← ProcessAction.ofText (← config.action)
    return .operation ref config (.processAction action manager)
  | .serviceActions attached => some do
    let action ← ServiceAction.ofText (← config.action)
    return .operation ref config (.serviceAction action attached)
  | .external _ => none

end ComponentHost
