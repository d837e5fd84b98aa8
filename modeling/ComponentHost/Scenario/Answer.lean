import ComponentHost.Scenario.World

/-!
Answers to the steps of a scenario.

A step that names something the scenario does not have answers so; it does not fail.
-/

set_option autoImplicit false

namespace ComponentHost.Scenario

open World

/-- The answer to a step that names something that is not there. -/
def badStep (what : String) : Answer := .ok (.ofEntries [("bad_step", .str what)])

def nothing : Answer := .ok .null

/-- The place of a creation time in an answer. -/
def maskedTime : Json := .str "<time>"

/-- Is this a time in UTC, written in full? Its parts may be separated by a blank or a small
letter. -/
def isTime (s : String) : Bool :=
  let form := s.toList.map fun c ↦ if c.isDigit then '0' else c
  let fraction := (form.drop 19).dropLast
  form.take 10 == "0000-00-00".toList && ['T', 't', ' '].contains (form.getD 10 '0')
    && (form.take 19).drop 11 == "00:00:00".toList && form.getLast? == some 'Z'
    && (fraction.isEmpty || fraction.head? == some '.' && fraction.tail.all (· == '0'))
    && (Rfc3339.parse s).isOk

/-- An entry of an object, a creation time hidden. -/
def maskEntry : String × Json → String × Json
  | ("created_at", .str s) => ("created_at", if isTime s then maskedTime else .str s)
  | e => e

def maskTop : Json → Json
  | .obj entries => .obj (entries.map maskEntry)
  | v => v

/-- A result with the creation times hidden that stand at its top, or in the items of its list of
processes. -/
def maskTimes (v : Json) : Json :=
  match maskTop v with
  | .obj entries => .obj (entries.map fun
    | ("processes", .arr items) => ("processes", .arr (items.map maskTop))
    | e => e)
  | v => v

namespace World

/-- The state of a process as it is reported. -/
def snapshot (h : Host) (p : ProcessRef) : Json :=
  maskTop (ProcessSnapshot.codec.encode (h.processes.get p).snapshot)

def describe (c : Component) : Json :=
  .ofEntries (("as_operation", .bool c.executable) ::
    match c.describe with
    | .obj entries => entries
    | _ => [])

/-- An action of the host that ends in an answer. -/
def answer (a : Action Json) : Play Answer := onHost a.run

def quiet {α : Type} (a : Action α) : Play Answer := answer (a *> pure .null)

def described (a : Action Component) : Play Answer := answer (describe <$> a)

/-- Goes on with what a name stands for. -/
def named {α : Type} (look : World → Option α) (what : String) (body : α → Play Answer) :
    Play Answer := do
  match ← Prog.gets look with
  | some a => body a
  | none => return badStep what

/-- The context a step names; a step that names none works in the usual one, and without that in
the one that goes by the name of `root`. -/
def context? (step : Step) (usual : Option ContextRef) (w : World) : Option ContextRef :=
  match step.context with
  | some name => w.contexts.get? name
  | none => usual <|> w.contexts.get? rootName

/-- Works in the context of a step, and holds it as long as that takes. -/
def inContext (step : Step) (usual : Option ContextRef) (body : ContextRef → Play Answer) :
    Play Answer :=
  named (context? step usual) "ctx" fun ctx ↦ do
    onHost (Host.holdContext ctx)
    let a ← body ctx
    onHost (Host.releaseContext ctx)
    return a

/-- Works on the manager that a step names. -/
def managed (step : Step) (body : ManagerRef → Action Json) : Play Answer :=
  named (fun w ↦ w.managers.get? step.manager) "manager" fun m ↦
    answer (Host.holding (some m) body)

end World

end ComponentHost.Scenario
