import ComponentHost.Scenario.Play

/-!
The collaborators of a scenario: components, factories, plugins and handlers that follow scripts.
-/

set_option autoImplicit false

namespace ComponentHost.Scenario

namespace World

/-- Goes through a phase of a script that is kept in the state. -/
def followPhase (look : World → Script) (change : (Script → Script) → World → World)
    (phase : String) (ctx : ContextRef) : Play (Except Error Unit) := do
  let script ← Prog.gets look
  let at_ := phase ++ ":" ++ script.name
  note (.str at_)
  takeAll ctx at_ (script.steps phase)
  let script ← Prog.gets look
  if script.fails phase then
    Prog.modify (change (·.failed phase))
    return .error (script.error phase)
  else return .ok ()

def followComponent (c : Component) (phase : String) (ctx : ContextRef) :
    Play (Except Error Unit) :=
  followPhase (fun w ↦ w.components.get c.instanceRef)
    (fun f w ↦ { w with components := w.components.modify c.instanceRef f }) phase ctx

def followPlugin (p : Plugin) (phase : String) (ctx : ContextRef) : Play (Except Error Unit) :=
  followPhase (fun w ↦ w.plugins.get p.ref)
    (fun f w ↦ { w with plugins := w.plugins.modify p.ref f }) phase ctx

/-- What an instance with a script returns when it is executed. -/
def followExecution (c : Component) (ctx : ContextRef) (data : Json) :
    Play (Except Error Json) := do
  match ← followComponent c "execute" ctx with
  | .error e => return .error e
  | .ok () =>
    match data.get? "fail" with
    | some (.bool true) => return .error (.component c.id "asked to fail")
    | _ => do
      let script ← Prog.gets fun w ↦ w.components.get c.instanceRef
      return .ok (script.output.getD (.ofEntries [("echo", data)]))

/-- What the factory of scripted components does. -/
def createScripted (config : ComponentConfig) : Play (Except Error Component) := do
  let at_ := "create:" ++ config.name
  note (.str at_)
  takeAllAtOnce at_ ((Script.ofJson config.name (.obj config.custom)).steps "create")
  if (config.custom.get? "fail_factory").isSome then
    return .error (.component config.name "factory refused")
  else return .ok (← buildScripted config)

def createExternal (factory : Factory) (config : ComponentConfig) :
    Play (Except Error Component) :=
  if factory = failingFactory then return .error (.component config.name "cannot build")
  else createScripted config

/-- A handler notes the event and takes its steps. -/
def receive (ref : HandlerRef) (event : Event) : Play Unit := do
  let handler ← Prog.gets fun w ↦ w.handlers.get ref
  let entry := Json.arr [.str handler.label, .str event.topic, event.payload]
  Prog.modify fun w ↦ { w with events := w.events ++ [entry] }
  if handler.steps.isEmpty || handler.left == 0 then return ()
  Prog.modify fun w ↦
    { w with handlers := w.handlers.modify ref fun x ↦ { x with left := x.left - 1 } }
  takeAllAtOnce ("event:" ++ handler.label) handler.steps

/-- What collaborators from outside the host do. -/
def external : (c : Call) → Play c.Reply
  | .create factory config => createExternal factory config
  | .lifecycle phase c ctx => followComponent c phase.text ctx
  | .execute c ctx data => followExecution c ctx data
  | .plugin phase plugin ctx => followPlugin plugin phase.text ctx
  | .release _ => return ()
  | .generateId _ => return .error (.idGeneration "no such generator")
  | .publish _ _ => return ()
  | .deliver handler event => receive handler event
  | .log _ => return ()
  | .line _ => return ()

/-- The collaborators of a scenario: those of the host, and the scripted ones. -/
def environment : Environment World := fun c ↦
  match Host.answer? c with
  | some p => onHost p
  | none => external c

end World

end ComponentHost.Scenario
