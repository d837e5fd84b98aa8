import ComponentHost.Scenario.Answer

/-!
Taking the steps of a scenario.

A step is a computation over the state of the scenario with an answer. Steps that may have to wait
work in a context, which is looked up before anything else; where nothing can wait they are not
taken.
-/

set_option autoImplicit false

namespace ComponentHost.Scenario

namespace World

/-- A new generator of identifiers. -/
def newGenerator (ids : IdGenerator) : Prog Host GeneratorRef :=
  .update fun h ↦
    let (g, generators) := h.generators.add ids
    (g, { h with generators })

/-- Gives a manager a name; one that had the name is let go. -/
def keepManager (name : String) (m : ManagerRef) : Play Unit := do
  match ← Prog.gets fun w ↦ w.managers.get? name with
  | some old => onHost (Host.relinquish old)
  | none => pure ()
  Prog.modify fun w ↦ { w with managers := Names.set w.managers name m }

/-- Gives a context that is held for this a name; one that had the name is released. -/
def keepContext (name : String) (ctx : ContextRef) : Play Unit := do
  let old ← Prog.gets fun w ↦ w.contexts.get? name
  Prog.modify fun w ↦ { w with contexts := Names.set w.contexts name ctx }
  match old with
  | some old => onHost (Host.releaseContext old)
  | none => pure ()

/-- Makes an instance that follows a script. -/
def buildScripted (config : ComponentConfig) : Play Component := do
  let ref ← onHost (.update fun h ↦
    (h.nextInstance, { h with nextInstance := h.nextInstance + 1 }))
  let custom := Json.obj config.custom
  let kind : Kind := match custom.text "kind" with
    | "service" => .service
    | "operation" => .operation
    | _ => .plain
  Prog.modify fun w ↦
    { w with components := w.components.set ref (Script.ofJson config.name custom) }
  return {
    instanceRef := ref
    metadata := { Metadata.ofConfig config with id := (custom.text? "own_id").getD config.id }
    kind
    executable := ((custom.get? "as_operation").bind Json.bool?).getD (kind == .operation)
    behaviour := .external }

/-- The factory that always fails. -/
def failingFactory : Factory := .external 0

/-- The factory of components that follow scripts. -/
def scriptFactory : Factory := .external 1

def factoryOf (type : String) (m : Option ManagerRef) : Factory :=
  match type with
  | "plain" => .passive
  | "failing" => failingFactory
  | "service_op" => .serviceActions true
  | "process_op" => .processActions m
  | _ => scriptFactory

/-- The items of a schedule's answer. -/
def nextRuns (s : Schedule) (afters : List Json) : Json :=
  .arr (afters.map fun v ↦
    match Instant.ofJson? v with
    | some after =>
      match s.next after with
      | some t => t.toJson
      | none => .null
    | none => .str "bad time")

def systemSummary (h : Host) : String :=
  "ZiCSystem \x7b configuration: " ++ h.configuration.summary ++ ", registry: "
    ++ h.registry.summary ++ ", plugins: ZiCPluginManager \x7b plugins: [] \x7d \x7d"

/-- The answer to a request for a summary; what has no fixed order is not shown. -/
def summary (step : Step) : Option Subject → Play Answer
  | some .registry => answer (Host.inspect fun h ↦ .ok (.str h.registry.summary))
  | some .system => answer (Host.inspect fun h ↦
      .ok (if h.plugins.isEmpty then .str (systemSummary h) else .null))
  | some .bus => named (fun w ↦ if w.ownBus then some w.host.bus else none) "bus" fun bus ↦
      return .ok (.str bus.summary)
  | some .manager => managed step fun m ↦ Host.inspect fun h ↦
      let manager := h.managers.get m
      .ok (if manager.recorded.length < 2 then .str manager.summary else .null)
  | some (.process id) => managed step fun m ↦ do
      return .str (← Host.process (← Host.find m id)).summary
  | none => return badStep "unknown"

def phaseOf? : String → Option Phase
  | "initialize" => some .setUp
  | "start" => some .start
  | "stop" => some .stop
  | _ => none

def pluginPhaseOf? : String → Option PluginPhase
  | "initialize" => some .setUp
  | "register_resources" => some .registerResources
  | "start" => some .start
  | "stop" => some .stop
  | _ => none

def lookUp : Lookup → String → Action Component
  | .component, id => Host.component id
  | .operation, id => Host.operation id
  | .service, id => Host.service id
  | .remove, id => Host.removeComponent id

/-- Takes a step that may have to wait. -/
def takeBlocking (step : Step) (ctx : ContextRef) : Blocking → Play Answer
  | .perform id phase => do
    match ← onHost (Host.component id).run with
    | .error e => return .error e
    | .ok c =>
      match phaseOf? phase with
      | some phase => quiet (Host.perform phase c ctx)
      | none => return badStep "phase"
  | .dispatch id data => answer (maskTimes <$> Host.dispatch ctx id data)
  | .addPlugin script => do
    let ref ← Prog.update fun w ↦
      let (ref, plugins) := w.plugins.add script
      (ref, { w with plugins })
    quiet (Host.addPlugin ctx ⟨ref, script.name, false⟩)
  | .addOperations ids => do
    let plugin ← onHost (Host.newOperationsPlugin ids)
    quiet (Host.addPlugin ctx plugin)
  | .shutDown => quiet (Host.stopAll ctx)
  | .keepPlugin label ids => do
    let plugin ← onHost (Host.newOperationsPlugin ids)
    match ← Prog.gets fun w ↦ w.kept.get? label with
    | some old => onHost (Host.releaseOperations old.ref)
    | none => pure ()
    Prog.modify fun w ↦ { w with kept := Names.set w.kept label plugin }
    return .ok (.str plugin.name)
  | .runPhase label phase => named (fun w ↦ w.kept.get? label) "plugin" fun plugin ↦
    match pluginPhaseOf? phase with
    | some phase => quiet (Host.runPhase phase plugin ctx)
    | none => return badStep "phase"
  | .pluginManager label name => named (fun w ↦ w.kept.get? label) "plugin" fun plugin ↦ do
    match (← onHost (Host.pluginData plugin.ref)).manager with
    | none => return .ok (.bool false)
    | some m =>
      match name with
      | some name => do
        let _ ← onHost (Host.acquire m).run
        keepManager name m
      | none => pure ()
      return .ok (.bool true)
  | .dropPlugin label => do
    match ← Prog.gets fun w ↦ w.kept.get? label with
    | some plugin => do
      onHost (Host.releaseOperations plugin.ref)
      Prog.modify fun w ↦ { w with kept := w.kept.erase label }
      return .ok (.bool true)
    | none => return .ok (.bool false)
  | .createProcess config => managed step fun m ↦ do
    let config ← Action.ofExcept (ProcessConfig.codec.read config)
    let p ← Host.createProcess m ctx config
    Host.inspect fun h ↦ .ok (snapshot h p)
  | .startProcess id => managed step fun m ↦ do
    Host.startProcess m ctx id
    return .null
  | .stopProcess id => managed step fun m ↦ do
    Host.stopProcess m ctx id
    return .null
  | .restartProcess id => managed step fun m ↦ do
    Host.restartProcess m ctx id
    return .null
  | .markFailed id reason => managed step fun m ↦ do
    Host.markFailed m id reason
    return .null
  | .awaitCancelled => do
    Prog.claim fun w ↦ if w.host.contexts.isCancelled ctx then some w else none
    return nothing
  | .take gate => do
    Prog.claim fun w ↦
      match w.gates.get? gate with
      | some (n + 1) => some { w with gates := Names.set w.gates gate n }
      | _ => none
    return nothing

/-- Takes a step where nothing can wait. -/
def takeAtOnce (usual : Option ContextRef) (step : Step) : Play Answer :=
  match step.command with
  | .blocking _ => return badStep "blocking"
  | .bindFactory id type => do
    let m ← Prog.gets fun w ↦ w.managers.get? step.manager
    quiet (Host.registerFactory id (factoryOf type m))
  | .build id config => described do
    let f ← Host.factory id
    let config ← Action.ofExcept (ComponentConfig.codec.read config)
    Host.build f config
  | .create config => described do
    let config ← Action.ofExcept (ComponentConfig.codec.read config)
    Host.createComponent config
  | .register config =>
    match ComponentConfig.codec.read config with
    | .ok config => do
      let c ← buildScripted config
      described (Host.registerComponent c)
    | .error e => return .error e
  | .lookUp how id => described (lookUp how id)
  | .list => answer (Host.inspect fun h ↦ .ok (.ofEntries [
      ("components", .strings h.registry.componentIds),
      ("factories", .strings h.registry.factoryIds)]))
  | .listPlugins => answer (Host.inspect fun h ↦ .ok (.arr (h.plugins.map fun e ↦
      .arr [.str e.name, PluginState.codec.encode e.state])))
  | .pluginState name => answer (Host.inspect fun h ↦
      .ok (((h.pluginState? name).map PluginState.codec.encode).getD .null))
  | .keepManager name ids => do
    let m ← onHost do Host.newManager (← newGenerator ids)
    keepManager name m
    return .ok (.bool true)
  | .dropManager name => do
    match ← Prog.gets fun w ↦ w.managers.get? name with
    | some m => do
      onHost (Host.relinquish m)
      Prog.modify fun w ↦ { w with managers := w.managers.erase name }
      return .ok (.bool true)
    | none => return .ok (.bool false)
  | .process id => managed step fun m ↦ do
    let p ← Host.find m id
    Host.inspect fun h ↦ .ok (snapshot h p)
  | .removeProcess id => managed step fun m ↦ do
    let p ← Host.removeProcess m id
    Host.inspect fun h ↦ .ok (snapshot h p)
  | .listProcesses => managed step fun m ↦
    Host.inspect fun h ↦ .ok (.arr ((h.listed m).map (snapshot h)))
  | .processComponent id name => managed step fun m ↦ do
    let p ← Host.find m id
    return (((← Host.process p).component? name).map describe).getD .null
  | .schedule id anchor interval afters =>
    named (fun w ↦ w.managers.get? step.manager) "manager" fun m ↦
      match Instant.ofJson? anchor, Span.ofJson? interval with
      | some anchor, some interval => answer (Host.holding (some m) fun m ↦ do
        let s ← Action.ofExcept (Schedule.ofInterval anchor interval)
        let (p, s) ← Host.scheduleProcess m id s
        return .ofEntries [("id", .str (← Host.process p).id), ("next", nextRuns s afters)])
      | _, _ => return badStep "time"
  | .hold id label => named (fun w ↦ w.managers.get? step.manager) "manager" fun m ↦ do
    match ← onHost (Host.find m id).run with
    | .ok p => do
      Prog.modify fun w ↦ { w with held := Names.set w.held label p }
      return nothing
    | .error e => return .error e
  | .held label => named (fun w ↦ w.held.get? label) "held" fun p ↦
    answer (Host.inspect fun h ↦
      let process := h.processes.get p
      .ok (.ofEntries [("snapshot", snapshot h p),
        ("status", ProcessStatus.codec.encode process.status),
        ("names", .strings process.names),
        ("config", ProcessConfig.codec.encode process.config)]))
  | .subscribe label topic steps times => do
    let handler ← Prog.update fun w ↦
      let (ref, handlers) := w.handlers.add ⟨label, steps, times⟩
      (ref, { w with handlers })
    let id ← onHost (Host.subscribe topic handler)
    Prog.modify fun w ↦ { w with subscriptions := Names.set w.subscriptions label id }
    return .ok (.ofNat id.toNat)
  | .unsubscribe id label =>
    named (fun w ↦ (id.map UInt64.ofNat).or (w.subscriptions.get? label)) "subscription" fun id ↦ do
      return .ok (.bool (← onHost (Host.unsubscribe id)))
  | .publish topic payload => do
    Prog.ask (.publish topic payload)
    return nothing
  | .subscriberCount topic =>
    named (fun w ↦ if w.ownBus then some w.host.bus else none) "bus" fun bus ↦
      return .ok (.ofNat (bus.subscriberCount topic))
  | .newContext name parent =>
    match parent with
    | none => do
      keepContext name (← onHost (.update fun h ↦
        let (ctx, contexts) := h.contexts.background
        (ctx, { h with contexts })))
      return nothing
    | some parent => named (fun w ↦ w.contexts.get? parent) "ctx" fun parent ↦ do
      keepContext name (← onHost (.update fun h ↦
        let (ctx, contexts) := h.contexts.child parent
        (ctx, { h with contexts })))
      return nothing
  | .shareContext name => named (context? step usual) "ctx" fun ctx ↦ do
    onHost (Host.holdContext ctx)
    keepContext name ctx
    return nothing
  | .cancelContext => named (context? step usual) "ctx" fun ctx ↦ do
    onHost (Host.cancelContext ctx)
    return nothing
  | .checkContext => named (context? step usual) "ctx" fun ctx ↦ answer do
    Host.checkContext ctx
    return .bool false
  | .log level message fields => quiet (Host.log (.ofText level) message fields)
  | .logContains level needle =>
    named (fun w ↦ w.host.logger.contains? (.ofText level) needle) "logger" fun found ↦
      return .ok (.bool found)
  | .configuration => answer (Host.inspect fun h ↦
      .ok (Configuration.codec.encode h.configuration))
  | .summary subject => summary step subject
  | .give gate count => do
    Prog.modify fun w ↦
      { w with gates := Names.set w.gates gate ((w.gates.get? gate).getD 0 + count) }
    return nothing
  | .unknown => return badStep "unknown"

/-- Takes a step; `usual` is the context of a step that names none. -/
def take (usual : Option ContextRef) (step : Step) : Play Answer :=
  match step.command with
  | .blocking b => inContext step usual fun ctx ↦ takeBlocking step ctx b
  | _ => takeAtOnce usual step

/-- Takes steps in order and writes down what each came to. -/
def takeAll (ctx : ContextRef) (at_ : String) : List Json → Play Unit
  | [] => return ()
  | v :: rest => do
    noteAnswer at_ (← take (some ctx) (.ofJson v))
    takeAll ctx at_ rest

/-- Takes steps where nothing can wait. -/
def takeAllAtOnce (at_ : String) : List Json → Play Unit
  | [] => return ()
  | v :: rest => do
    noteAnswer at_ (← takeAtOnce none (.ofJson v))
    takeAllAtOnce at_ rest

end World

end ComponentHost.Scenario
