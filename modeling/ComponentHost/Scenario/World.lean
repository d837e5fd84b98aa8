import ComponentHost.Error.Report
import ComponentHost.Host.Collaborators
import ComponentHost.Machine
import ComponentHost.Scenario.Command

/-!
The state of a scenario: a host, the components, plugins and handlers that follow scripts, what the
steps have named, and what there is to report.
-/

set_option autoImplicit false

namespace ComponentHost.Scenario

/-- What a step came to. -/
abbrev Answer := Except Error Json

/-- A handler that follows a script: it notes the event and takes steps for the first events. -/
structure Handler where
  label : String
  steps : List Json
  left : Nat
  deriving Inhabited

/-- Values by name; naming again replaces. -/
abbrev Names (α : Type) := Table α

namespace Names

variable {α : Type}

def set (t : Names α) (name : String) (a : α) : Names α := Table.bind (Table.erase t name) name a

end Names

/-- The state of a scenario. -/
structure World where
  host : Host := {}
  /-- The scripts of component instances, by the number of the instance. -/
  components : Store Script := .empty
  plugins : Store Script := .empty
  handlers : Store Handler := .empty
  managers : Names ManagerRef := []
  contexts : Names ContextRef := []
  held : Names ProcessRef := []
  kept : Names Plugin := []
  /-- The latest subscription of each label. -/
  subscriptions : Names UInt64 := []
  /-- Permits of each gate. -/
  gates : Names Nat := []
  /-- The bus is one whose subscriptions can be counted. -/
  ownBus : Bool := true
  /-- The answers of finished tasks. -/
  answers : Store (Option Answer) := .empty
  journal : List Json := []
  events : List Json := []
  /-- How many records and lines have been reported. -/
  reportedRecords : Nat := 0
  reportedLines : Nat := 0

/-- The name of the context that is there from the start, until another one is given the name. -/
def rootName : String := "root"

/-- A computation of a scenario. -/
abbrev Play (α : Type) := Prog World α

namespace World

variable {α : Type}

/-- A computation of the host. -/
def onHost (p : Prog Host α) : Play α := p.within (·.host) fun host w ↦ { w with host }

/-- Writes to the journal. -/
def note (entry : Json) : Play Unit := .modify fun w ↦ { w with journal := w.journal ++ [entry] }

/-- Writes down what a step came to. -/
def noteAnswer (at_ : String) (a : Answer) : Play Unit :=
  note (.ofEntries [("at", .str at_), ("got", .ofEntries (reportOutcome a))])

end World

end ComponentHost.Scenario
