/-!
The errors of the host.

Some errors wrap the one that caused them: `Error.source?` is that cause, `Error.rootCause` the
innermost one, and `Error.depth` the number of wrappings above it.
-/

set_option autoImplicit false

namespace ComponentHost

/-- Why a request to the host failed. -/
inductive Error where
  | factoryAlreadyRegistered (factory : String)
  | factoryNotFound (factory : String)
  | componentAlreadyExists (component : String)
  | componentNotFound (component : String)
  | operationNotFound (operation : String)
  | notAnOperation (operation : String)
  | notAService (service : String)
  | operationFailed (operation : String) (source : Error)
  | emptyProcessConfig
  | processNotFound (process : String)
  | componentInitFailed (process component : String) (source : Error)
  | componentStartFailed (process component : String) (source : Error)
  | componentStopFailed (process component : String) (source : Error)
  | plugin (plugin phase : String) (source : Error)
  /-- A failure that a component reports itself. -/
  | component (component message : String)
  | idGeneration (message : String)
  | cancelled
  | validation (message : String)
  /-- A value that does not have the form asked for. -/
  | malformed (message : String)
  | internal (message : String)
  deriving DecidableEq, Repr, Inhabited

namespace Error

def quoted (s : String) : String := "'" ++ s ++ "'"

/-- The text shown to a user; a wrapping error ends with the text of what it wraps. -/
def message : Error → String
  | .factoryAlreadyRegistered id => "factory " ++ quoted id ++ " is already registered"
  | .factoryNotFound id => "factory " ++ quoted id ++ " not found"
  | .componentAlreadyExists id => "component " ++ quoted id ++ " already exists"
  | .componentNotFound id => "component " ++ quoted id ++ " not found"
  | .operationNotFound id => "operation " ++ quoted id ++ " not found"
  | .notAnOperation id => "component " ++ quoted id ++ " is not an operation"
  | .notAService id => "component " ++ quoted id ++ " is not a service"
  | .operationFailed id e => "operation " ++ quoted id ++ " failed: " ++ e.message
  | .emptyProcessConfig => "process configuration declares no components"
  | .processNotFound id => "process " ++ quoted id ++ " not found"
  | .componentInitFailed p c e =>
    "component " ++ quoted c ++ " of process " ++ quoted p ++ " failed to initialize: " ++ e.message
  | .componentStartFailed p c e =>
    "component " ++ quoted c ++ " of process " ++ quoted p ++ " failed to start: " ++ e.message
  | .componentStopFailed p c e =>
    "component " ++ quoted c ++ " of process " ++ quoted p ++ " failed to stop: " ++ e.message
  | .plugin p phase e => "plugin " ++ quoted p ++ " failed during " ++ phase ++ ": " ++ e.message
  | .component c text => "component " ++ quoted c ++ " error: " ++ text
  | .idGeneration text => "id generation failed: " ++ text
  | .cancelled => "operation cancelled"
  | .validation text => "validation error: " ++ text
  | .malformed text => "serialization error: " ++ text
  | .internal text => "internal error: " ++ text

/-- The error that this one wraps. -/
def source? : Error → Option Error
  | .operationFailed _ e
  | .componentInitFailed _ _ e
  | .componentStartFailed _ _ e
  | .componentStopFailed _ _ e
  | .plugin _ _ e => some e
  | _ => none

/-- The innermost error. -/
def rootCause : Error → Error
  | .operationFailed _ e => e.rootCause
  | .componentInitFailed _ _ e => e.rootCause
  | .componentStartFailed _ _ e => e.rootCause
  | .componentStopFailed _ _ e => e.rootCause
  | .plugin _ _ e => e.rootCause
  | e => e

/-- How many errors are wrapped inside one another. -/
def depth : Error → Nat
  | .operationFailed _ e => e.depth + 1
  | .componentInitFailed _ _ e => e.depth + 1
  | .componentStartFailed _ _ e => e.depth + 1
  | .componentStopFailed _ _ e => e.depth + 1
  | .plugin _ _ e => e.depth + 1
  | _ => 0

end Error

end ComponentHost
