import ComponentHost.Host.Basic

/-!
Building components and keeping them in the registry.

A component is recorded only after its factory has returned it; the factory runs between the two
looks at the registry and may change it.
-/

set_option autoImplicit false

namespace ComponentHost.Host

/-- Binds a factory to an identifier that is free. -/
def registerFactory (id : String) (f : Factory) : Action Unit := do
  attempt fun h ↦ return ((), { h with registry := ← h.registry.bindFactory id f })
  diagnose .debug ("registered component factory " ++ Error.quoted id)

def factory (id : String) : Action Factory := inspect fun h ↦ h.registry.factory id

/-- Records an instance under an identifier that is free. -/
def record (id : String) (c : Component) : Action Component := do
  attempt fun h ↦ return ((), { h with registry := ← h.registry.bindComponent id c })
  diagnose .debug
    ("recorded " ++ c.kind.text ++ " component " ++ Error.quoted id ++ " (" ++ c.name ++ ")")
  return c

/-- Records an instance under its own identifier. -/
def registerComponent (c : Component) : Action Component := record c.id c

/-- Builds a component with the factory it names and records it under its declared identifier. -/
def createComponent (config : ComponentConfig) : Action Component := do
  let f ← factory config.factory
  let c ← build f config
  record config.id c

def component (id : String) : Action Component := inspect fun h ↦ h.registry.component id

def operation (id : String) : Action Component := inspect fun h ↦ h.registry.operation id

def service (id : String) : Action Component := inspect fun h ↦ h.registry.service id

def removeComponent (id : String) : Action Component :=
  attempt fun h ↦ do
    let (c, registry) ← h.registry.removeComponent id
    return (c, { h with registry })

/-- Executes the operation under an identifier. Its failure comes back wrapped, with the identifier
it was dispatched by. -/
def dispatch (ctx : ContextRef) (id : String) (data : Json) : Action Json := do
  let c ← operation id
  diagnose .debug ("dispatching operation " ++ Error.quoted id)
  tryCatch (execute c ctx data) fun e ↦ do
    diagnose .warn ("operation " ++ Error.quoted id ++ " failed: " ++ e.message)
    throw (.operationFailed id e)

end ComponentHost.Host
