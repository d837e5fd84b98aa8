import ComponentHost.Component.Basic

/-!
The registry: which factories and which components exist, each under an identifier of its own.

Binding never replaces: an identifier that is taken stays with what it is bound to.
-/

set_option autoImplicit false

namespace ComponentHost

/-- What is bound under which identifier, in the order of binding. -/
abbrev Table (α : Type) := List (String × α)

namespace Table

variable {α : Type}

def get? (t : Table α) (id : String) : Option α := List.lookup id t

def contains (t : Table α) (id : String) : Bool := (List.lookup id t).isSome

/-- Binds an identifier that is free. -/
def bind (t : Table α) (id : String) (a : α) : Table α := t ++ [(id, a)]

def erase (t : Table α) (id : String) : Table α := t.filter (·.1 != id)

/-- The identifiers in increasing order. -/
def ids (t : Table α) : List String := (t.map (·.1)).mergeSort (fun a b ↦ decide (a ≤ b))

end Table

/-- The factories and components of a system. -/
structure Registry where
  factories : Table Factory := []
  components : Table Component := []

namespace Registry

def bindFactory (r : Registry) (id : String) (f : Factory) : Except Error Registry :=
  if r.factories.contains id then .error (.factoryAlreadyRegistered id)
  else .ok { r with factories := r.factories.bind id f }

def factory (r : Registry) (id : String) : Except Error Factory :=
  match r.factories.get? id with
  | some f => .ok f
  | none => .error (.factoryNotFound id)

def bindComponent (r : Registry) (id : String) (c : Component) : Except Error Registry :=
  if r.components.contains id then .error (.componentAlreadyExists id)
  else .ok { r with components := r.components.bind id c }

def component (r : Registry) (id : String) : Except Error Component :=
  match r.components.get? id with
  | some c => .ok c
  | none => .error (.componentNotFound id)

/-- The component under an identifier, if it is an operation that can be executed. -/
def operation (r : Registry) (id : String) : Except Error Component :=
  match r.components.get? id with
  | some c => if c.kind = .operation ∧ c.executable then .ok c else .error (.notAnOperation id)
  | none => .error (.operationNotFound id)

/-- The component under an identifier, if it is a service. -/
def service (r : Registry) (id : String) : Except Error Component :=
  match r.components.get? id with
  | some c => if c.kind = .service then .ok c else .error (.notAService id)
  | none => .error (.componentNotFound id)

def removeComponent (r : Registry) (id : String) : Except Error (Component × Registry) :=
  match r.components.get? id with
  | some c => .ok (c, { r with components := r.components.erase id })
  | none => .error (.componentNotFound id)

def componentIds (r : Registry) : List String := r.components.ids

def factoryIds (r : Registry) : List String := r.factories.ids

/-- A list of texts as summaries show it. -/
def listSummary (items : List String) : String :=
  "[" ++ ", ".intercalate (items.map Text.quoted) ++ "]"

def summary (r : Registry) : String :=
  "ZiCComponentRegistry \x7b factories: " ++ listSummary r.factoryIds ++ ", components: "
    ++ listSummary r.componentIds ++ " \x7d"

end Registry

end ComponentHost
