import ComponentHost.Process.Config
import ComponentHost.Process.Status
import ComponentHost.Registry

/-!
Processes and the managers that record them.

A process keeps its components by name; `Process.ordered` is their list in declared order. A
manager records processes by identifier and lists them in the order of their numbers.
-/

set_option autoImplicit false

namespace ComponentHost

/-- The number of a process, unlike its identifier never used again. -/
abbrev ProcessRef := Nat

/-- The number of a generator of identifiers. -/
abbrev GeneratorRef := Nat

/-- A process whose components are built and initialized. -/
structure Process where
  id : String
  config : ProcessConfig
  components : Table Component
  status : ProcessStatus := .initialized
  createdAt : Timestamp
  /-- Its place in the order of its manager. -/
  seq : UInt64
  /-- Some lifecycle call has the process to itself. -/
  locked : Bool := false
  deriving Inhabited

namespace Process

def names (p : Process) : List String := p.config.names

def component? (p : Process) (name : String) : Option Component := p.components.get? name

/-- The components with their names, in declared order. -/
def ordered (p : Process) : List (String × Component) :=
  p.names.filterMap fun name ↦ (p.component? name).map fun c ↦ (name, c)

def snapshot (p : Process) : ProcessSnapshot :=
  { id := p.id
    status := p.status.text
    failure := p.status.failure?
    components := p.names
    createdAt := p.createdAt }

def summary (p : Process) : String :=
  "ZiCETLProcess \x7b id: " ++ Text.quoted p.id ++ ", status: " ++ p.status.summary
    ++ ", components: " ++ Registry.listSummary p.names ++ " \x7d"

/-- A failed process is of no use any more. -/
def rejectFailed (p : Process) : Except Error Unit :=
  match p.status with
  | .failed reason =>
    .error (.validation
      ("process " ++ Error.quoted p.id ++ " has failed (" ++ reason ++ ") and must be removed"))
  | _ => .ok ()

end Process

/-- A manager of processes. -/
structure Manager where
  generator : GeneratorRef
  recorded : Table ProcessRef := []
  /-- The number of the next process; it starts over after the last one of 64 bits. -/
  nextSeq : UInt64 := 1
  /-- How many parties keep the manager available. -/
  owners : Nat := 1
  deriving Inhabited

namespace Manager

def find (m : Manager) (id : String) : Except Error ProcessRef :=
  match m.recorded.get? id with
  | some p => .ok p
  | none => .error (.processNotFound id)

def summary (m : Manager) : String :=
  "ZiCProcessManager \x7b processes: " ++ Registry.listSummary (m.recorded.map (·.1)) ++ " \x7d"

end Manager

end ComponentHost
