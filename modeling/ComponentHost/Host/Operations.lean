import ComponentHost.Host.Components
import ComponentHost.Host.Processes

/-!
What the operations of the host do when they are executed.

An operation on processes works on the manager it was built for and keeps it available while it is
at work; once nobody else does, the operation fails.
-/

set_option autoImplicit false

namespace ComponentHost.Host

variable {α : Type}

/-- Keeps a manager available, if it still is. -/
def acquire (m : ManagerRef) : Action Unit :=
  attempt fun h ↦
    if (h.managers.get m).owners = 0 then
      .error (.internal "process manager is no longer available")
    else
      let managers := h.managers.modify m fun x ↦ { x with owners := x.owners + 1 }
      .ok ((), { h with managers })

/-- One party less keeps the manager available. -/
def relinquish (m : ManagerRef) : Prog Host Unit :=
  .modify fun h ↦
    { h with managers := h.managers.modify m fun x ↦ { x with owners := x.owners - 1 } }

/-- Works on a manager that is kept available meanwhile. -/
def holding (m : Option ManagerRef) (body : ManagerRef → Action α) : Action α := ExceptT.mk do
  match m with
  | none => return .error (.internal "process manager is no longer available")
  | some m =>
    match ← (acquire m).run with
    | .error e => return .error e
    | .ok () =>
      let r ← (body m).run
      relinquish m
      return r

/-- The present view of a process. -/
def snapshot (p : ProcessRef) : Action Json := do
  return ProcessSnapshot.codec.encode (← process p).snapshot

/-- The present view of a recorded process. -/
def snapshotOf (m : ManagerRef) (id : String) : Action Json := do
  snapshot (← find m id)

/-- Carries out an action on the processes of a manager. -/
def processAction (action : ProcessAction) (m : ManagerRef) (ctx : ContextRef) (data : Json) :
    Action Json :=
  match action with
  | .create => do
    let config ← Action.ofExcept (ProcessConfig.codec.read data)
    snapshot (← createProcess m ctx config)
  | .start => do
    let id ← Action.ofExcept (data.requiredText "process_id")
    startProcess m ctx id
    snapshotOf m id
  | .stop => do
    let id ← Action.ofExcept (data.requiredText "process_id")
    stopProcess m ctx id
    snapshotOf m id
  | .restart => do
    let id ← Action.ofExcept (data.requiredText "process_id")
    restartProcess m ctx id
    snapshotOf m id
  | .remove => do
    let id ← Action.ofExcept (data.requiredText "process_id")
    let _ ← removeProcess m id
    return .ofEntries [("process_id", .str id), ("removed", .bool true)]
  | .get =>
    match (data.get? "process_id").bind Json.str? with
    | some id => snapshotOf m id
    | none => inspect fun h ↦ .ok (.ofEntries [("processes",
        .arr ((h.listed m).map fun p ↦
          ProcessSnapshot.codec.encode (h.processes.get p).snapshot))])

/-- Carries out an action on the services of the registry. -/
def serviceAction (action : ServiceAction) (attached : Bool) (ctx : ContextRef) (data : Json) :
    Action Json := do
  if !attached then throw (.internal "component registry is no longer available")
  match action with
  | .create =>
    let config ← Action.ofExcept (ComponentConfig.codec.read data)
    return (← createComponent config).describe
  | .start =>
    let id ← Action.ofExcept (data.requiredText "service_id")
    perform .start (← service id) ctx
    return .ofEntries [("service_id", .str id), ("state", .str "started")]
  | .stop =>
    let id ← Action.ofExcept (data.requiredText "service_id")
    perform .stop (← service id) ctx
    return .ofEntries [("service_id", .str id), ("state", .str "stopped")]

end ComponentHost.Host
