import ComponentHost.Plugin.State
import ComponentHost.Process.Basic

/-!
Plugins and the list that tracks them.
-/

set_option autoImplicit false

namespace ComponentHost

/-- The number of a plugin. -/
abbrev PluginRef := Nat

/-- A plugin, by its number and the name it goes by. -/
structure Plugin where
  ref : PluginRef
  name : String
  /-- It is the host's own plugin. -/
  builtin : Bool
  deriving DecidableEq, Repr

/-- A tracked plugin; it is released once it has been stopped. -/
structure PluginEntry where
  name : String
  state : PluginState
  addedAt : Timestamp
  plugin : Option Plugin

namespace PluginEntry

def info (e : PluginEntry) : PluginInfo := ⟨e.name, e.state, e.addedAt⟩

end PluginEntry

/-- The steps of a plugin's life. -/
inductive PluginPhase where
  | setUp
  | registerResources
  | start
  | stop
  deriving DecidableEq, Repr

namespace PluginPhase

def text : PluginPhase → String
  | .setUp => "initialize"
  | .registerResources => "register_resources"
  | .start => "start"
  | .stop => "stop"

end PluginPhase

/-- What the host's own plugin keeps between its phases. -/
structure OperationsPlugin where
  generator : GeneratorRef
  /-- It has been set up and not stopped since. -/
  attached : Bool := false
  manager : Option ManagerRef := none
  /-- The services it has started, the latest first. -/
  started : List String := []
  deriving Inhabited

end ComponentHost
