import ComponentHost.Component.Config

/-!
What is known about every component: its identity and what it can do.
-/

set_option autoImplicit false

namespace ComponentHost

/-- The identity of a component. -/
structure Metadata where
  id : String
  name : String
  description : String
  deriving DecidableEq, Repr

namespace Metadata

def ofConfig (config : ComponentConfig) : Metadata :=
  ⟨config.id, config.name, config.description⟩

def shape : RecordShape Metadata where
  name := "ZiCComponentMetadata"
  fields :=
    .cons { name := "id", codec := .text } <|
    .cons { name := "name", codec := .text } <|
    .cons { name := "description", codec := .text } .nil
  toTuple m := (m.id, m.name, m.description, ())
  ofTuple t := ⟨t.1, t.2.1, t.2.2.1⟩

def codec : Codec Metadata := shape.codec

end Metadata

/-- What a component is for. -/
inductive Kind where
  /-- Runs for long, started and stopped through its lifecycle. -/
  | service
  /-- Can be dispatched. -/
  | operation
  | plain
  deriving DecidableEq, Repr

namespace Kind

def text : Kind → String
  | .service => "service"
  | .operation => "operation"
  | .plain => "plain"

def codec : Codec Kind where
  encode
    | .service => .str "Service"
    | .operation => .str "Operation"
    | .plain => .str "Plain"
  decode := Variant.decode [
    ⟨"Service", .nothing .service⟩,
    ⟨"Operation", .nothing .operation⟩,
    ⟨"Plain", .nothing .plain⟩]

end Kind

/-- What an operation is given. -/
structure OperationInput where
  data : Json

/-- What an operation returns. -/
structure OperationOutput where
  data : Json

def OperationInput.shape : RecordShape OperationInput where
  name := "ZiCOperationInput"
  fields := .cons { name := "data", codec := .json } .nil
  toTuple x := (x.data, ())
  ofTuple t := ⟨t.1⟩

def OperationInput.codec : Codec OperationInput := shape.codec

def OperationOutput.shape : RecordShape OperationOutput where
  name := "ZiCOperationOutput"
  fields := .cons { name := "data", codec := .json } .nil
  toTuple x := (x.data, ())
  ofTuple t := ⟨t.1⟩

def OperationOutput.codec : Codec OperationOutput := shape.codec

end ComponentHost
