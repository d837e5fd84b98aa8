import ComponentHost.Process.Config
import ComponentHost.Yaml.Value

/-!
Process declarations written in YAML.

A text field takes the text of a scalar as it is written. Where a list or a record should stand and
nothing does, it is empty. Unlike in JSON, a record is never a list.
-/

set_option autoImplicit false

namespace ComponentHost

open Yaml

namespace ComponentConfig

/-- The fields of a component declaration as far as they are given. -/
structure Draft where
  id : Option String := none
  name : Option String := none
  description : Option String := none
  factory : Option String := none
  custom : Option Entries := none

/-- Sets a field that is not set yet. -/
def Draft.once {α : Type} (old : Option α) (new : Option α) : Option (Option α) :=
  if old.isSome then none else new.map some

/-- How deep collections may be nested in a document. -/
def depthLimit : Nat := 128

/-- The collections around the custom part of a component. -/
def customDepth : Nat := 3

def customOf (n : Node) : Option Entries :=
  match n with
  | .mapping entries =>
    if customDepth + n.depth > depthLimit then none else Node.entriesToJson? [] entries
  | n => if n.isEmpty then some [] else none

/-- Takes in one entry; keys without a meaning are passed over. -/
def Draft.put (d : Draft) (key : String) (n : Node) : Option Draft :=
  if key = "id" then (once d.id n.text?).map ({ d with id := · })
  else if key = "name" then (once d.name n.text?).map ({ d with name := · })
  else if key = "description" then (once d.description n.text?).map ({ d with description := · })
  else if ["factoryId", "factoryID", "factory_id"].contains key then
    (once d.factory n.text?).map ({ d with factory := · })
  else if ["customConfig", "custom_config"].contains key then
    (once d.custom (customOf n)).map ({ d with custom := · })
  else some d

def Draft.putAll (d : Draft) : List (Node × Node) → Option Draft
  | [] => some d
  | (key, n) :: rest => do (← d.put (← key.text?) n).putAll rest

def Draft.finish (d : Draft) : Option ComponentConfig := do
  return ⟨← d.id, ← d.name, d.description.getD "", ← d.factory, d.custom.getD []⟩

def ofNode (n : Node) : Option ComponentConfig :=
  match n with
  | .mapping entries => do (← ({} : Draft).putAll entries).finish
  | _ => none

end ComponentConfig

namespace ProcessConfig

def componentsOf (n : Node) : Option (List ComponentConfig) :=
  match n with
  | .sequence items => items.mapM ComponentConfig.ofNode
  | n => if n.isEmpty then some [] else none

/-- The components, given at most once. -/
def ofEntries (components : Option (List ComponentConfig)) :
    List (Node × Node) → Option ProcessConfig
  | [] => some ⟨components.getD []⟩
  | (key, n) :: rest => do
    if (← key.text?) = "components" then
      if components.isSome then none else ofEntries (some (← componentsOf n)) rest
    else ofEntries components rest

def ofNode (n : Node) : Option ProcessConfig :=
  match n with
  | .mapping entries => ofEntries none entries
  | n => if n.isEmpty then some ⟨[]⟩ else none

/-- Reads a declaration. -/
def ofYaml (text : String) : Except Error ProcessConfig :=
  match (Yaml.Node.ofText? text).bind ofNode with
  | some c => .ok c
  | none => .error (.malformed "not a process configuration")

end ProcessConfig

end ComponentHost
