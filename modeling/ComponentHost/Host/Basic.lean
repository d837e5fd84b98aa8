import ComponentHost.Configuration
import ComponentHost.Identifier
import ComponentHost.Log.Logger
import ComponentHost.Prog
import ComponentHost.Store

/-!
The state of a host: one system with its registry, plugins and process managers, and the
collaborators it was given.

The operations of the host are computations over this state that may fail (`Action`).
-/

set_option autoImplicit false

namespace ComponentHost

/-- A system and everything on it. -/
structure Host where
  configuration : Configuration := .default
  registry : Registry := {}
  managers : Store Manager := .empty
  processes : Store Process := .empty
  plugins : List PluginEntry := []
  /-- The host's own plugins, by number. -/
  operationsPlugins : Store OperationsPlugin := .empty
  contexts : Contexts := .empty
  generators : Store IdGenerator := .empty
  bus : EventBus := {}
  logger : Logger := .lines .default
  /-- The lines logged so far, oldest first. -/
  lines : List LogLine := []
  /-- What the clock shows. -/
  now : Timestamp := .epoch
  nextInstance : InstanceRef := 0

/-- A computation of the host that may fail. -/
abbrev Action (α : Type) := ExceptT Error (Prog Host) α

namespace Action

variable {α : Type}

/-- A computation that does not fail. -/
def of (p : Prog Host α) : Action α := ExceptT.lift p

/-- A check. -/
def ofExcept (r : Except Error α) : Action α := ExceptT.mk (.done r)

end Action

namespace Host

variable {α : Type}

/-- A host with a context and a manager of processes that takes its identifiers from a generator. -/
def withManager (ids : IdGenerator) : ContextRef × ManagerRef × Host :=
  let (ctx, contexts) := Contexts.background .empty
  let (generator, generators) := Store.empty.add ids
  let (m, managers) := Store.empty.add ({ generator } : Manager)
  (ctx, m, { contexts, generators, managers })

/-- One change of the state that may fail, and then changes nothing. -/
def attempt (f : Host → Except Error (α × Host)) : Action α :=
  ExceptT.mk (Prog.update fun h ↦
    match f h with
    | .ok (a, h) => (.ok a, h)
    | .error e => (.error e, h))

/-- One look at the state that may fail. -/
def inspect (f : Host → Except Error α) : Action α := ExceptT.mk (Prog.gets f)

/-- Writes a line of the host's own diagnostics. -/
def diagnose (level : LineLevel) (message : String) : Action Unit :=
  .of (.ask (.line ⟨level, "zi_runtime", message⟩))

/-- Gives a record to the logger of the system. -/
def log (level : LogLevel) (message : String) (fields : Entries) : Action Unit :=
  .of (.ask (.log ⟨level, message, fields⟩))

/-- Fields of a record; of two with one key the later counts. -/
def fields (entries : Entries) : Entries :=
  entries.foldl (fun acc e ↦ acc.insert e.1 e.2) []

/-! Calls whose answer may be a failure. -/

def build (factory : Factory) (config : ComponentConfig) : Action Component :=
  ExceptT.mk (.call (.create factory config) .done)

def perform (phase : Phase) (component : Component) (ctx : ContextRef) : Action Unit :=
  ExceptT.mk (.call (.lifecycle phase component ctx) .done)

def execute (component : Component) (ctx : ContextRef) (data : Json) : Action Json :=
  ExceptT.mk (.call (.execute component ctx data) .done)

def runPhase (phase : PluginPhase) (plugin : Plugin) (ctx : ContextRef) : Action Unit :=
  ExceptT.mk (.call (.plugin phase plugin ctx) .done)

def generateId (generator : GeneratorRef) : Action String :=
  ExceptT.mk (.call (.generateId generator) .done)

/-- Fails if the context is cancelled. -/
def checkContext (ctx : ContextRef) : Action Unit := inspect fun h ↦ h.contexts.check ctx

/-- Cancels a context and those derived from it, one after the other. -/
def cancelContext (ctx : ContextRef) : Prog Host Unit := do
  let refs ← Prog.gets fun h ↦ h.contexts.cancelledWith ctx
  refs.forM fun ref ↦ Prog.modify fun h ↦ { h with contexts := h.contexts.cancel ref }

def holdContext (ctx : ContextRef) : Prog Host Unit :=
  Prog.modify fun h ↦ { h with contexts := h.contexts.hold ctx }

def releaseContext (ctx : ContextRef) : Prog Host Unit :=
  Prog.modify fun h ↦ { h with contexts := h.contexts.release ctx }

end Host

end ComponentHost
