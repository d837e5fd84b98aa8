import ComponentHost.Host.Basic
import ComponentHost.Time.Schedule

/-!
The life of a process.

A manager builds the components of a process one after the other, records the process, and from
then on starts and stops it, marks it failed, or forgets it. Components that were started by a
call that fails are stopped again, as far as they can be; the failures of these stops are only
reported as lines. The lifecycle calls on one process exclude one another: each has the process to
itself from before its first call of a component to its end.
-/

set_option autoImplicit false

namespace ComponentHost.Host

variable {α : Type}

/-! Looking at managers and processes. -/

/-- The process a manager has recorded under an identifier. -/
def find (m : ManagerRef) (id : String) : Action ProcessRef :=
  inspect fun h ↦ (h.managers.get m).find id

/-- Processes in the order of their numbers. -/
def sorted (h : Host) (ps : List ProcessRef) : List ProcessRef :=
  ps.mergeSort fun p q ↦ (h.processes.get p).seq ≤ (h.processes.get q).seq

theorem sorted_perm (h : Host) (ps : List ProcessRef) : (h.sorted ps).Perm ps :=
  List.mergeSort_perm ..

theorem sorted_pairwise (h : Host) (ps : List ProcessRef) :
    (h.sorted ps).Pairwise fun p q ↦ (h.processes.get p).seq ≤ (h.processes.get q).seq := by
  have hsorted := @List.pairwise_mergeSort _
    (fun p q ↦ decide ((h.processes.get p).seq ≤ (h.processes.get q).seq))
    (fun p q r hpq hqr ↦ decide_eq_true
      (UInt64.le_trans (of_decide_eq_true hpq) (of_decide_eq_true hqr)))
    (fun p q ↦ by simpa using UInt64.le_total _ _) ps
  exact hsorted.imp of_decide_eq_true

/-- The recorded processes of a manager, in the order of their numbers. -/
def listed (h : Host) (m : ManagerRef) : List ProcessRef :=
  h.sorted ((h.managers.get m).recorded.map (·.2))

def process (p : ProcessRef) : Action Process := .of (.gets fun h ↦ h.processes.get p)

/-- Puts a process into a status. -/
def setStatus (p : ProcessRef) (status : ProcessStatus) : Action Unit :=
  .of (.modify fun h ↦ { h with processes := h.processes.modify p ({ · with status }) })

def rejectFailed (p : ProcessRef) : Action Unit :=
  inspect fun h ↦ (h.processes.get p).rejectFailed

/-! Having a process to oneself. -/

/-- Takes the lock of a process that is free. -/
def lock? (p : ProcessRef) (h : Host) : Option Host :=
  if (h.processes.get p).locked then none
  else some { h with processes := h.processes.modify p ({ · with locked := true }) }

def unlock (p : ProcessRef) (h : Host) : Host :=
  { h with processes := h.processes.modify p ({ · with locked := false }) }

/-- Waits until no other lifecycle call is at work on the process, and keeps others out. -/
def exclusively (p : ProcessRef) (body : Action α) : Action α := ExceptT.mk do
  Prog.claim (lock? p)
  let r ← body.run
  Prog.modify (unlock p)
  return r

/-! Telling others. -/

/-- Publishes what has become of a process. -/
def announce (topic : String) (p : ProcessRef) : Action Unit := do
  let process ← process p
  .of (.ask (.publish topic
    (.ofEntries [("process_id", .str process.id), ("status", .str process.status.text)])))

/-! Building. -/

/-- Stops components in the given order, whatever fails. -/
def rollback (ctx : ContextRef) (id : String) : List (String × Component) → Action Unit
  | [] => return ()
  | (name, c) :: rest => do
    tryCatch (perform .stop c ctx) fun e ↦
      diagnose .warn ("rollback stop of component " ++ Error.quoted name ++ " in process "
        ++ Error.quoted id ++ " failed: " ++ e.message)
    rollback ctx id rest

/-- Builds and sets up one component. -/
def prepare (ctx : ContextRef) (id : String) (config : ComponentConfig) : Action Component := do
  let f ← inspect fun h ↦ h.registry.factory config.factory
  tryCatch
    (do
      let c ← build f config
      perform .setUp c ctx
      return c)
    fun e ↦ throw (.componentInitFailed id config.name e)

/-- Prepares the declared components in order; `prepared` are those before. If one fails, those
before it are stopped, the earliest first. -/
def prepareAll (ctx : ContextRef) (id : String) (prepared : List (String × Component)) :
    List ComponentConfig → Action (List (String × Component))
  | [] => return prepared
  | config :: rest => do
    let c ← tryCatch (prepare ctx id config) fun e ↦ do
      log .warning "process initialization failed, rolling back" (fields [
        ("process_id", .str id), ("component", .str config.name),
        ("rolled_back", .ofNat prepared.length), ("error", .str e.message)])
      rollback ctx id prepared
      throw e
    prepareAll ctx id (prepared ++ [(config.name, c)]) rest

/-- Takes the next number of a manager. -/
def takeSeq (m : ManagerRef) : Action UInt64 :=
  .of (.update fun h ↦
    ((h.managers.get m).nextSeq,
      { h with managers := h.managers.modify m fun x ↦ { x with nextSeq := x.nextSeq + 1 } }))

/-- Records a process, unless its identifier is taken. -/
def recordProcess (m : ManagerRef) (process : Process) : Action (Option ProcessRef) :=
  .of (.update fun h ↦
    if (h.managers.get m).recorded.contains process.id then (none, h)
    else
      let (p, processes) := h.processes.add process
      let bind (x : Manager) : Manager := { x with recorded := x.recorded.bind process.id p }
      (some p, { h with processes, managers := h.managers.modify m bind }))

/-- Builds and sets up all declared components, then records the process. -/
def createProcess (m : ManagerRef) (ctx : ContextRef) (config : ProcessConfig) :
    Action ProcessRef := do
  Action.ofExcept config.validate
  checkContext ctx
  let generator ← .of (.gets fun h ↦ (h.managers.get m).generator)
  let id ← generateId generator
  let prepared ← prepareAll ctx id [] config.components
  let seq ← takeSeq m
  let now ← .of (.gets (·.now))
  let recorded ← recordProcess m { id, config, components := prepared, createdAt := now, seq }
  match recorded with
  | none => do
    rollback ctx id prepared
    throw (.internal ("generated process id " ++ Error.quoted id ++ " is already in use"))
  | some p => do
    log .info "process initialized" (fields [
      ("process_id", .str id), ("components", .strings config.names)])
    announce Topic.processInitialized p
    return p

/-- Creates processes in order, up to the first failure. -/
def createProcesses (m : ManagerRef) (ctx : ContextRef) :
    List ProcessConfig → Action (List ProcessRef)
  | [] => return []
  | config :: rest => do
    let p ← createProcess m ctx config
    return p :: (← createProcesses m ctx rest)

/-! Starting and stopping. -/

/-- Starts components in order; `started` are those this call has started, the latest first. If
one fails, they are stopped again. -/
def startEach (ctx : ContextRef) (id : String) (started : List (String × Component)) :
    List (String × Component) → Action Unit
  | [] => return ()
  | (name, c) :: rest => do
    tryCatch (perform .start c ctx) fun e ↦ do
      log .warning "component start failed, stopping started components" (fields [
        ("process_id", .str id), ("component", .str name),
        ("rolled_back", .ofNat started.length), ("error", .str e.message)])
      rollback ctx id started
      throw (.componentStartFailed id name e)
    startEach ctx id ((name, c) :: started) rest

/-- Stops components in order, up to the first that fails. -/
def stopEach (ctx : ContextRef) (id : String) : List (String × Component) → Action Unit
  | [] => return ()
  | (name, c) :: rest => do
    tryCatch (perform .stop c ctx) fun e ↦ do
      log .error "component stop failed" (fields [
        ("process_id", .str id), ("component", .str name), ("error", .str e.message)])
      throw (.componentStopFailed id name e)
    stopEach ctx id rest

/-- What starting does once the process is locked. -/
def startLocked (ctx : ContextRef) (id : String) (p : ProcessRef) : Action Unit := do
  rejectFailed p
  startEach ctx id [] (← process p).ordered
  setStatus p .running
  log .info "process started" (fields [("process_id", .str id)])
  announce Topic.processStarted p

/-- What stopping does once the process is locked. -/
def stopLocked (ctx : ContextRef) (id : String) (p : ProcessRef) : Action Unit := do
  stopEach ctx id (← process p).ordered.reverse
  setStatus p .stopped
  log .info "process stopped" (fields [("process_id", .str id)])
  announce Topic.processStopped p

/-- Starts the components of a process in declared order. -/
def startProcess (m : ManagerRef) (ctx : ContextRef) (id : String) : Action Unit := do
  let p ← find m id
  checkContext ctx
  exclusively p (startLocked ctx id p)

/-- Stops the components of a process in reverse declared order. -/
def stopProcess (m : ManagerRef) (ctx : ContextRef) (id : String) : Action Unit := do
  let p ← find m id
  checkContext ctx
  exclusively p (stopLocked ctx id p)

/-- Stops a process and starts it again, unless it has failed. -/
def restartProcess (m : ManagerRef) (ctx : ContextRef) (id : String) : Action Unit := do
  let p ← find m id
  rejectFailed p
  stopProcess m ctx id
  startProcess m ctx id

/-- What marking a process failed does once it is locked. -/
def failLocked (id reason : String) (p : ProcessRef) : Action Unit := do
  setStatus p (.failed reason)
  log .error "process marked failed" (fields [("process_id", .str id), ("reason", .str reason)])
  announce Topic.processFailed p

/-- Marks a process as failed, for a reason found elsewhere. -/
def markFailed (m : ManagerRef) (id reason : String) : Action Unit := do
  let p ← find m id
  exclusively p (failLocked id reason p)

/-- Takes a process out of the table of its manager. -/
def unrecord (m : ManagerRef) (id : String) : Action ProcessRef :=
  attempt fun h ↦ do
    let p ← (h.managers.get m).find id
    let erase (x : Manager) : Manager := { x with recorded := x.recorded.erase id }
    return (p, { h with managers := h.managers.modify m erase })

/-- Forgets a process. Its components are not stopped. -/
def removeProcess (m : ManagerRef) (id : String) : Action ProcessRef := do
  let p ← unrecord m id
  if (← process p).status = .running then
    diagnose .warn ("removed process " ++ Error.quoted id ++ " while it was still running")
  announce Topic.processRemoved p
  return p

/-- Pairs a recorded process with a schedule; nothing drives the result. -/
def scheduleProcess (m : ManagerRef) (id : String) (s : Schedule) :
    Action (ProcessRef × Schedule) := do
  let p ← find m id
  return (p, s)

end ComponentHost.Host
