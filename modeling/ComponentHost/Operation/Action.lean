import ComponentHost.Component.Config

/-!
The actions that the host offers as operations, and how an operation's configuration and input
name them.
-/

set_option autoImplicit false

namespace ComponentHost

/-- What can be done to a process by dispatching an operation. -/
inductive ProcessAction where
  | create
  | start
  | stop
  | restart
  | remove
  | get
  deriving DecidableEq, Repr

namespace ProcessAction

def all : List ProcessAction := [.create, .start, .stop, .restart, .remove, .get]

def text : ProcessAction → String
  | .create => "create"
  | .start => "start"
  | .stop => "stop"
  | .restart => "restart"
  | .remove => "remove"
  | .get => "get"

/-- The operation that the host's own plugin registers the action under. -/
def operationId (a : ProcessAction) : String := "process." ++ a.text

def ofText (s : String) : Except Error ProcessAction :=
  match all.find? (·.text == s) with
  | some a => .ok a
  | none => .error (.validation ("unknown process action " ++ Error.quoted s))

end ProcessAction

/-- What can be done to a service by dispatching an operation. -/
inductive ServiceAction where
  | create
  | start
  | stop
  deriving DecidableEq, Repr

namespace ServiceAction

def all : List ServiceAction := [.create, .start, .stop]

def text : ServiceAction → String
  | .create => "create"
  | .start => "start"
  | .stop => "stop"

def operationId (a : ServiceAction) : String := "service." ++ a.text

def ofText (s : String) : Except Error ServiceAction :=
  match all.find? (·.text == s) with
  | some a => .ok a
  | none => .error (.validation ("unknown service action " ++ Error.quoted s))

end ServiceAction

/-- The action that the configuration of an operation asks for. -/
def ComponentConfig.action (config : ComponentConfig) : Except Error String :=
  match (config.custom.get? "action").bind Json.str? with
  | some s => .ok s
  | none => .error (.validation "operation config requires an 'action' string")

/-- A text that the input of an operation has to give, not empty. -/
def Json.requiredText (data : Json) (field : String) : Except Error String :=
  match (data.get? field).bind Json.str? with
  | some s =>
    if s = "" then .error (.validation ("missing string field " ++ Error.quoted field)) else .ok s
  | none => .error (.validation ("missing string field " ++ Error.quoted field))

end ComponentHost
