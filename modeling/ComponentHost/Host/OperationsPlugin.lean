import ComponentHost.Host.Operations
import ComponentHost.Host.Plugins

/-!
The host's own plugin: it owns a process manager, registers the operations on processes and
services, starts the services named by the configuration, and at its end stops what runs.
-/

set_option autoImplicit false

namespace ComponentHost.Host

def operationsPluginName : String := "zi.runtime"

def processActionsFactory : String := "zi.operation.process"

def serviceActionsFactory : String := "zi.operation.service"

/-- A new manager with one owner. -/
def newManager (generator : GeneratorRef) : Prog Host ManagerRef :=
  .update fun h ↦
    let (m, managers) := h.managers.add { generator }
    (m, { h with managers })

def modifyPlugin (ref : PluginRef) (f : OperationsPlugin → OperationsPlugin) : Prog Host Unit :=
  .modify fun h ↦ { h with operationsPlugins := h.operationsPlugins.modify ref f }

def pluginData (ref : PluginRef) : Prog Host OperationsPlugin :=
  .gets fun h ↦ h.operationsPlugins.get ref

def relinquishOwn (x : OperationsPlugin) : Prog Host Unit :=
  match x.manager with
  | some m => relinquish m
  | none => return ()

def requireAttached (ref : PluginRef) : Action OperationsPlugin := do
  let x ← .of (pluginData ref)
  if !x.attached then throw (.internal "runtime plugin used before initialize")
  return x

/-- Sets the plugin up: it gets a manager of its own, in place of an earlier one. -/
def setUpOperations (ref : PluginRef) : Action Unit := .of do
  let x ← pluginData ref
  let m ← newManager x.generator
  relinquishOwn x
  modifyPlugin ref fun x ↦ { x with manager := some m, attached := true }

/-- The declaration of the operation for an action. -/
def operationConfig (id factory action : String) (what : String) : ComponentConfig :=
  { id, name := id, description := action ++ " " ++ what, factory
    custom := [("action", .str action)] }

def processOperationConfig (a : ProcessAction) : ComponentConfig :=
  operationConfig a.operationId processActionsFactory a.text "an ETL process"

def serviceOperationConfig (a : ServiceAction) : ComponentConfig :=
  operationConfig a.operationId serviceActionsFactory a.text "a registered service"

/-- Creates the declared components in order, up to the first failure. -/
def createEach : List ComponentConfig → Action Unit
  | [] => return ()
  | config :: rest => do
    let _ ← createComponent config
    createEach rest

/-- Registers both factories and one operation for each action. -/
def registerOperations (ref : PluginRef) : Action Unit := do
  let x ← requireAttached ref
  if x.manager.isNone then throw (.internal "runtime plugin used before initialize")
  registerFactory processActionsFactory (.processActions x.manager)
  registerFactory serviceActionsFactory (.serviceActions true)
  createEach (ProcessAction.all.map processOperationConfig)
  createEach (ServiceAction.all.map serviceOperationConfig)

/-- The services to start on their own: the texts of a list in the configuration. -/
def autostart (c : Configuration) : List String :=
  match (c.custom.get? "autostart_services").bind Json.arr? with
  | some ids => ids.filterMap Json.str?
  | none => []

/-- Calls a part of the lifecycle of the service under an identifier. -/
def performService (phase : Phase) (ctx : ContextRef) (id : String) : Action Unit := do
  perform phase (← service id) ctx

/-- Stops services, the latest first, whatever fails; answers the first failure, which is `first`
if there is one already. -/
def stopServices (ref : PluginRef) (ctx : ContextRef) (first : Option Error) :
    List String → Prog Host (Option Error)
  | [] => return first
  | id :: rest => do
    modifyPlugin ref fun x ↦ { x with started := rest }
    match ← (performService .stop ctx id).run with
    | .ok () => stopServices ref ctx first rest
    | .error e => stopServices ref ctx (some (first.getD e)) rest

def stopStarted (ref : PluginRef) (ctx : ContextRef) : Prog Host (Option Error) := do
  let x ← pluginData ref
  stopServices ref ctx none x.started

/-- Starts services in order; on a failure those started before are stopped again. -/
def startServices (ref : PluginRef) (ctx : ContextRef) : List String → Action Unit
  | [] => return ()
  | id :: rest => do
    tryCatch (performService .start ctx id) fun e ↦ do
      let x ← .of (pluginData ref)
      log .warning "service autostart failed, stopping started services" (fields [
        ("service_id", .str id), ("rolled_back", .ofNat x.started.length),
        ("error", .str e.message)])
      match ← .of (stopStarted ref ctx) with
      | some rollbackError =>
        diagnose .warn
          ("rollback stop of autostarted services failed: " ++ rollbackError.message)
      | none => pure ()
      throw e
    log .info "service started" (fields [("service_id", .str id)])
    .of (modifyPlugin ref fun x ↦ { x with started := id :: x.started })
    startServices ref ctx rest

def startOperations (ref : PluginRef) (ctx : ContextRef) : Action Unit := do
  let _ ← requireAttached ref
  let ids ← .of (.gets fun h ↦ autostart h.configuration)
  startServices ref ctx ids

/-- Stops the processes that are running when their turn comes; answers the first failure. -/
def stopRunning (m : ManagerRef) (ctx : ContextRef) (first : Option Error) :
    List ProcessRef → Prog Host (Option Error)
  | [] => return first
  | p :: rest => do
    let process ← Prog.gets fun h ↦ h.processes.get p
    if process.status = .running then
      match ← (stopProcess m ctx process.id).run with
      | .ok () => stopRunning m ctx first rest
      | .error e => stopRunning m ctx (some (first.getD e)) rest
    else stopRunning m ctx first rest

/-- Stops the running processes of the plugin's manager and lets go of the manager. -/
def stopManaged (ref : PluginRef) (ctx : ContextRef) (m : ManagerRef) :
    Prog Host (Option Error) := do
  modifyPlugin ref fun x ↦ { x with manager := none }
  let processes ← Prog.gets fun h ↦ h.listed m
  let first ← stopRunning m ctx none processes
  relinquish m
  return first

/-- Stops running processes, then the services started, then forgets the system. -/
def stopOperations (ref : PluginRef) (ctx : ContextRef) : Action Unit := do
  let x ← requireAttached ref
  let first ← match x.manager with
    | some m => .of (stopManaged ref ctx m)
    | none => pure none
  let second ← .of (stopStarted ref ctx)
  .of (modifyPlugin ref fun x ↦ { x with attached := false })
  match first.or second with
  | some e => throw e
  | none => return ()

/-- The phases of the host's own plugin. -/
def operationsPhase (phase : PluginPhase) (ref : PluginRef) (ctx : ContextRef) : Action Unit :=
  match phase with
  | .setUp => setUpOperations ref
  | .registerResources => registerOperations ref
  | .start => startOperations ref ctx
  | .stop => stopOperations ref ctx

/-- The plugin is let go, and its manager with it. -/
def releaseOperations (ref : PluginRef) : Prog Host Unit := do
  relinquishOwn (← pluginData ref)
  modifyPlugin ref fun x ↦ { x with manager := none, attached := false, started := [] }

/-- A new plugin of the host, with its own generator of identifiers. -/
def newOperationsPlugin (generator : IdGenerator) : Prog Host Plugin :=
  .update fun h ↦
    let (g, generators) := h.generators.add generator
    let (ref, operationsPlugins) := h.operationsPlugins.add { generator := g }
    (⟨ref, operationsPluginName, true⟩, { h with generators, operationsPlugins })

end ComponentHost.Host
