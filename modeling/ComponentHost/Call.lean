import ComponentHost.Context
import ComponentHost.Log.Config
import ComponentHost.Plugin.Basic
import ComponentHost.Event.Bus

/-!
What the host asks of its collaborators: components, factories, plugins, event handlers, and the
generator, bus and logger a system is given.

The host itself only says which call it makes and what it goes on with after the answer. What the
collaborator does meanwhile, other calls to the host included, is not its business.
-/

set_option autoImplicit false

namespace ComponentHost

/-- The parts of a component's life. -/
inductive Phase where
  | setUp
  | start
  | stop
  deriving DecidableEq, Repr

namespace Phase

def text : Phase → String
  | .setUp => "initialize"
  | .start => "start"
  | .stop => "stop"

end Phase

/-- A call to a collaborator. -/
inductive Call where
  | create (factory : Factory) (config : ComponentConfig)
  | lifecycle (phase : Phase) (component : Component) (ctx : ContextRef)
  | execute (component : Component) (ctx : ContextRef) (data : Json)
  | plugin (phase : PluginPhase) (plugin : Plugin) (ctx : ContextRef)
  /-- The plugin is not needed any more. -/
  | release (plugin : Plugin)
  | generateId (generator : GeneratorRef)
  | publish (topic : String) (payload : Json)
  /-- The handler of a subscription is given an event. -/
  | deliver (handler : HandlerRef) (event : Event)
  | log (record : LogRecord)
  /-- A line of the host's own diagnostics. -/
  | line (line : LogLine)

namespace Call

/-- The type of the answer to a call. -/
abbrev Reply : Call → Type
  | .create _ _ => Except Error Component
  | .lifecycle _ _ _ => Except Error Unit
  | .execute _ _ _ => Except Error Json
  | .plugin _ _ _ => Except Error Unit
  | .release _ => Unit
  | .generateId _ => Except Error String
  | .publish _ _ => Unit
  | .deliver _ _ => Unit
  | .log _ => Unit
  | .line _ => Unit

/-- May the caller be suspended until the answer comes? Only methods of components and plugins
take their time; all else answers at once. -/
def suspends : Call → Bool
  | .lifecycle _ _ _ | .execute _ _ _ | .plugin _ _ _ => true
  | _ => false

end Call

end ComponentHost
