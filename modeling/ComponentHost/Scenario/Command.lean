import ComponentHost.Plugin.Basic
import ComponentHost.Scenario.Script

/-!
The steps of a scenario.
-/

set_option autoImplicit false

namespace ComponentHost.Scenario

/-- Ways to look up a component. -/
inductive Lookup where
  | component
  | operation
  | service
  /-- Looks it up and takes it out of the registry. -/
  | remove
  deriving DecidableEq, Repr

/-- What the summary of is asked for. -/
inductive Subject where
  | registry
  | system
  | bus
  | manager
  | process (id : String)
  deriving DecidableEq, Repr

/-- What a step does that may have to wait for something. -/
inductive Blocking where
  | perform (id phase : String)
  | dispatch (id : String) (data : Json)
  | addPlugin (script : Script)
  | addOperations (ids : IdGenerator)
  | shutDown
  | keepPlugin (label : String) (ids : IdGenerator)
  | runPhase (label phase : String)
  | pluginManager (label : String) (name : Option String)
  | dropPlugin (label : String)
  | createProcess (config : Json)
  | startProcess (id : String)
  | stopProcess (id : String)
  | restartProcess (id : String)
  | markFailed (id reason : String)
  | awaitCancelled
  | take (gate : String)

/-- What a step does. -/
inductive Command where
  | blocking (b : Blocking)
  | bindFactory (id type : String)
  | build (factory : String) (config : Json)
  | create (config : Json)
  | register (config : Json)
  | lookUp (how : Lookup) (id : String)
  | list
  | listPlugins
  | pluginState (name : String)
  | keepManager (name : String) (ids : IdGenerator)
  | dropManager (name : String)
  | process (id : String)
  | removeProcess (id : String)
  | listProcesses
  | processComponent (id name : String)
  | schedule (id : String) (anchor interval : Json) (afters : List Json)
  | hold (id label : String)
  | held (label : String)
  | subscribe (label topic : String) (steps : List Json) (times : Nat)
  | unsubscribe (id : Option Nat) (label : String)
  | publish (topic : String) (payload : Json)
  | subscriberCount (topic : String)
  | newContext (name : String) (parent : Option String)
  | shareContext (name : String)
  | cancelContext
  | checkContext
  | log (level message : String) (fields : Entries)
  | logContains (level needle : String)
  | configuration
  | summary (subject : Option Subject)
  | give (gate : String) (count : Nat)
  | unknown

/-- A step, with the context and the manager it names. -/
structure Step where
  command : Command
  /-- The context to use instead of the usual one. -/
  context : Option String
  manager : String

namespace Command

def subjectOf (v : Json) : Option Subject :=
  match v.text "what" with
  | "registry" => some .registry
  | "system" => some .system
  | "bus" => some .bus
  | "manager" => some .manager
  | "process" => some (.process (v.text "process_id"))
  | _ => none

def ids (v : Json) : IdGenerator := .ofJson (v.field "ids")

/-- Reads what a step does. -/
def ofJson (v : Json) : Command :=
  match v.text "do" with
  | "factory" => .bindFactory (v.text "id") (v.text "type")
  | "build" => .build (v.text "id") (v.field "config")
  | "create" => .create (v.field "config")
  | "register" => .register (v.field "config")
  | "get" => .lookUp .component (v.text "id")
  | "get_operation" => .lookUp .operation (v.text "id")
  | "get_service" => .lookUp .service (v.text "id")
  | "remove" => .lookUp .remove (v.text "id")
  | "list" => .list
  | "call" => .blocking (.perform (v.text "id") (v.text "phase"))
  | "exec" => .blocking (.dispatch (v.text "id") (v.field "data"))
  | "plugin" => .blocking (.addPlugin (.ofJson (v.text "name") v))
  | "runtime_plugin" => .blocking (.addOperations (ids v))
  | "shutdown" => .blocking .shutDown
  | "plugins" => .listPlugins
  | "plugin_state" => .pluginState (v.text "name")
  | "rp_new" => .blocking (.keepPlugin (v.text "as") (ids v))
  | "rp_phase" => .blocking (.runPhase (v.text "as") (v.text "phase"))
  | "rp_manager" => .blocking (.pluginManager (v.text "as") (v.text? "name"))
  | "rp_drop" => .blocking (.dropPlugin (v.text "as"))
  | "manager" => .keepManager (v.text "name") (ids v)
  | "drop_manager" => .dropManager (v.text "name")
  | "p_init" => .blocking (.createProcess (v.field "config"))
  | "p_start" => .blocking (.startProcess (v.text "process_id"))
  | "p_stop" => .blocking (.stopProcess (v.text "process_id"))
  | "p_restart" => .blocking (.restartProcess (v.text "process_id"))
  | "p_fail" => .blocking (.markFailed (v.text "process_id") (v.text "reason"))
  | "p_get" => .process (v.text "process_id")
  | "p_remove" => .removeProcess (v.text "process_id")
  | "p_all" => .listProcesses
  | "p_component" => .processComponent (v.text "process_id") (v.text "name")
  | "p_schedule" =>
    .schedule (v.text "process_id") (v.field "anchor") (v.field "interval") (v.items "afters")
  | "hold" => .hold (v.text "process_id") (v.text "as")
  | "held" => .held (v.text "as")
  | "subscribe" =>
    .subscribe (v.text "as") (v.text "topic") (v.items "on")
      (((v.get? "times").bind Json.nat?).getD 1)
  | "unsubscribe" => .unsubscribe ((v.get? "sub").bind Json.nat?) (v.text "as")
  | "publish" => .publish (v.text "topic") (v.field "payload")
  | "sub_count" => .subscriberCount (v.text "topic")
  | "ctx_new" => .newContext (v.text "name") (v.text? "parent")
  | "ctx_share" => .shareContext (v.text "name")
  | "ctx_cancel" => .cancelContext
  | "ctx_check" => .checkContext
  | "ctx_wait" => .blocking .awaitCancelled
  | "log" => .log (v.text "level") (v.text "message") (v.entries "fields")
  | "log_contains" => .logContains (v.text "level") (v.text "needle")
  | "configuration" => .configuration
  | "debug" => .summary (subjectOf v)
  | "wait" => .blocking (.take (v.text "gate"))
  | "release" => .give (v.text "gate") (((v.get? "count").bind Json.nat?).getD 1)
  | _ => .unknown

end Command

/-- Reads a step. -/
def Step.ofJson (v : Json) : Step where
  command := .ofJson v
  context := v.text? "ctx"
  manager := (v.text? "manager").getD "main"

end ComponentHost.Scenario
