import ComponentHost.Host.OperationsPlugin

/-!
The collaborators that come with the host: its components, factories and plugin, the generators of
identifiers, the event bus and the loggers.
-/

set_option autoImplicit false

namespace ComponentHost.Host

/-- Hands an event to handlers in order. -/
def deliverAll (event : Event) : List Subscription → Prog Host Unit
  | [] => return ()
  | s :: rest => do
    Prog.ask (.deliver s.handler event)
    deliverAll event rest

/-- Delivers an event to those who have subscribed by now. -/
def publish (topic : String) (payload : Json) : Prog Host Unit := do
  let (event, receivers) ← Prog.gets fun h ↦
    ((⟨topic, payload, h.now⟩ : Event), h.bus.receivers topic)
  deliverAll event receivers

/-- Subscribes a handler to a topic; the answer is the number of the subscription. -/
def subscribe (topic : String) (handler : HandlerRef) : Prog Host UInt64 :=
  .update fun h ↦
    let (id, bus) := h.bus.subscribe topic handler
    (id, { h with bus })

/-- Ends a subscription; the answer is whether it was there. -/
def unsubscribe (id : UInt64) : Prog Host Bool :=
  .update fun h ↦
    let (found, bus) := h.bus.unsubscribe id
    (found, { h with bus })

def writeLine (line : LogLine) : Prog Host Unit :=
  .modify fun h ↦ { h with lines := h.lines ++ [line] }

/-- Keeps a record or writes it as a line. -/
def logRecord (record : LogRecord) : Prog Host Unit :=
  .modify fun h ↦
    { h with
      logger := h.logger.after record
      lines := h.lines ++ (h.logger.line? record 0).toList }

/-- Asks a generator. -/
def nextId (generator : GeneratorRef) : Prog Host (Except Error String) :=
  .update fun h ↦
    let (r, g) := (h.generators.get generator).next
    (r, { h with generators := h.generators.modify generator fun _ ↦ g })

/-- A factory of the host gives every instance a number of its own. -/
def buildOwn? (factory : Factory) (config : ComponentConfig) :
    Option (Prog Host (Except Error Component)) :=
  match factory with
  | .external _ => none
  | factory => some (.update fun h ↦
      ((factory.build? h.nextInstance config).getD (.error (.internal "no such factory")),
        { h with nextInstance := h.nextInstance + 1 }))

/-- What an instance does when it is executed, if that is fixed. -/
def executeOwn? (c : Component) (ctx : ContextRef) (data : Json) :
    Option (Prog Host (Except Error Json)) :=
  match c.behaviour with
  | .processAction action m => some (holding m fun m ↦ processAction action m ctx data).run
  | .serviceAction action attached => some (serviceAction action attached ctx data).run
  | .passive => some (.done (.error (.notAnOperation c.id)))
  | .external => none

/-- How the host's own collaborators answer; nothing for those from outside. -/
def answer? : (c : Call) → Option (Prog Host c.Reply)
  | .create factory config => buildOwn? factory config
  | .lifecycle _ c _ => if c.behaviour = .external then none else some (.done (.ok ()))
  | .execute c ctx data => executeOwn? c ctx data
  | .plugin phase plugin ctx =>
    if plugin.builtin then some (operationsPhase phase plugin.ref ctx).run else none
  | .release plugin => some (if plugin.builtin then releaseOperations plugin.ref else return ())
  | .generateId generator => some (nextId generator)
  | .publish topic payload => some (publish topic payload)
  | .deliver _ _ => none
  | .log record => some (logRecord record)
  | .line line => some (writeLine line)

end ComponentHost.Host
