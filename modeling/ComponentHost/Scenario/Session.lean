import ComponentHost.Scenario.Collaborators

/-!
Running a scenario: one task after the other, with a report after each on all that has happened
since the report before.
-/

set_option autoImplicit false

namespace ComponentHost.Scenario

/-- A scenario that is under way. -/
structure Session where
  machine : Machine World
  /-- Tasks without an answer, by label. -/
  pending : Names Nat := []
  tasks : Nat := 0

namespace Session

/-- The configuration that a scenario sets. -/
def configurationOf (v : Json) : Configuration :=
  match v.get? "configuration" with
  | some c =>
    ConfigurationDraft.build {
      debug := (c.get? "debug").bind Json.bool?
      verbose := (c.get? "verbose").bind Json.bool?
      custom := c.get? "custom_config" }
  | none => .default

def loggerOf (v : Json) : Logger :=
  match v.get? "logger" with
  | none => .memory []
  | some (.str _) => .lines .default
  | some c => .lines (.ofJson c)

/-- A fresh system with a context and a manager. -/
def start (v : Json) : Session :=
  let (root, m, host) := Host.withManager (.ofJson (v.field "ids"))
  { machine := {
      state := {
        host := { host with
          configuration := configurationOf v
          logger := loggerOf v
          bus := { active := v.text "bus" != "noop" } }
        ownBus := (v.get? "bus").isNone
        contexts := [(rootName, root)]
        managers := [("main", m)] } } }

/-- More than any scenario that ends takes. -/
def fuel : Nat := 100000000

/-- Lets everything run that can. -/
def settle (s : Session) : Session :=
  { s with machine := s.machine.run World.environment fuel }

def world (s : Session) : World := s.machine.state

/-- What is written down of an answer that is not there yet. -/
def pendingEntries : Entries := [("pending", .bool true)]

def answerEntries (s : Session) (task : Nat) : Entries :=
  match s.world.answers.get task with
  | some a => reportOutcome a
  | none => pendingEntries

/-- The computation of a task: a step whose answer is kept. -/
def taskOf (task : Nat) (step : Step) : Play Unit := do
  let a ← World.take none step
  Prog.modify fun w ↦ { w with answers := w.answers.set task (some a) }

/-- Takes a step as a task of its own. -/
def takeStep (s : Session) (label : String) (step : Step) : Entries × Session :=
  let task := s.tasks
  let s := { s with machine := s.machine.spawn (taskOf task step), tasks := task + 1 }.settle
  let s :=
    if (s.world.answers.get task).isSome then s
    else { s with pending := Names.set s.pending label task }
  (s.answerEntries task, s)

/-- Asks for the answer of a task that had none. -/
def join (s : Session) (label : String) : Entries × Session :=
  let s := s.settle
  match s.pending.get? label with
  | none => (reportOutcome (badStep "task"), s)
  | some task =>
    if (s.world.answers.get task).isSome then
      (s.answerEntries task, { s with pending := s.pending.erase label })
    else (pendingEntries, s)

/-- The processes of a manager with their statuses. -/
def processes (w : World) (name : String) : Json :=
  match w.managers.get? name with
  | some m => .arr ((w.host.listed m).map fun p ↦
      let process := w.host.processes.get p
      .arr [.str process.id, ProcessStatus.codec.encode process.status])
  | none => .null

def recordJson (r : LogRecord) : Json := .arr [.str r.level.text, .str r.message, .obj r.fields]

def lineJson (l : LogLine) : Json := .arr [.str l.level.text, .str l.target, .str l.message]

def records (w : World) : List LogRecord :=
  match w.host.logger with
  | .memory records => records
  | .lines _ => []

def unlessEmpty (key : String) (items : List Json) : Entries :=
  if items.isEmpty then [] else [(key, .arr items)]

/-- What has happened since the last report. -/
def news (w : World) : Entries :=
  unlessEmpty "journal" w.journal ++ unlessEmpty "events" w.events
    ++ unlessEmpty "logs" (((records w).drop w.reportedRecords).map recordJson)
    ++ unlessEmpty "facade" ((w.host.lines.drop w.reportedLines).map lineJson)

/-- All of it reported. -/
def reported (s : Session) : Session :=
  let w := s.world
  let w := { w with
    journal := []
    events := []
    reportedRecords := (records w).length
    reportedLines := w.host.lines.length }
  { s with machine := { s.machine with state := w } }

/-- Takes one step of a scenario: the report on it. -/
def next (s : Session) (v : Json) : Json × Session :=
  let (answer, s) :=
    if v.text "do" = "join" then s.join (v.text "task")
    else s.takeStep (v.text "task") (.ofJson v)
  let step := Step.ofJson v
  let procs : Entries :=
    if (v.text "do").startsWith "p_" then [("procs", processes s.world step.manager)] else []
  (.ofEntries (answer ++ procs ++ news s.world), s.reported)

def all (s : Session) : List Json → List Json
  | [] => []
  | v :: rest =>
    let (report, s) := s.next v
    report :: s.all rest

end Session

/-- Runs a scenario; the reports on its steps. -/
def run (v : Json) : Json :=
  .ofEntries [("steps", .arr ((Session.start v).all (v.items "steps")))]

end ComponentHost.Scenario
