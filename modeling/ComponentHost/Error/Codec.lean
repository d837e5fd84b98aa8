import ComponentHost.Error.Basic
import ComponentHost.Wire.Variant

/-!
Errors as JSON: the tag of the error with its fields, the wrapped error nested under `source`.

A text alone is the content of two tags, and two have none.
-/

set_option autoImplicit false

namespace ComponentHost

namespace Error

/-- The name of an error's kind. -/
def tag : Error → String
  | .factoryAlreadyRegistered _ => "FactoryAlreadyRegistered"
  | .factoryNotFound _ => "FactoryNotFound"
  | .componentAlreadyExists _ => "ComponentAlreadyExists"
  | .componentNotFound _ => "ComponentNotFound"
  | .operationNotFound _ => "OperationNotFound"
  | .notAnOperation _ => "NotAnOperation"
  | .notAService _ => "NotAService"
  | .operationFailed _ _ => "OperationFailed"
  | .emptyProcessConfig => "EmptyProcessConfig"
  | .processNotFound _ => "ProcessNotFound"
  | .componentInitFailed _ _ _ => "ComponentInitFailed"
  | .componentStartFailed _ _ _ => "ComponentStartFailed"
  | .componentStopFailed _ _ _ => "ComponentStopFailed"
  | .plugin _ _ _ => "Plugin"
  | .component _ _ => "Component"
  | .idGeneration _ => "IdGeneration"
  | .cancelled => "Cancelled"
  | .validation _ => "Validation"
  | .malformed _ => "Serde"
  | .internal _ => "Internal"

/-- An object of texts. -/
def texts (entries : List (String × String)) : Json :=
  .ofEntries (entries.map fun (k, v) ↦ (k, .str v))

def encode : Error → Json
  | e@(.factoryAlreadyRegistered id) | e@(.factoryNotFound id) =>
    .tagged e.tag (texts [("factory_id", id)])
  | e@(.componentAlreadyExists id) | e@(.componentNotFound id) =>
    .tagged e.tag (texts [("component_id", id)])
  | e@(.operationNotFound id) | e@(.notAnOperation id) =>
    .tagged e.tag (texts [("operation_id", id)])
  | e@(.notAService id) => .tagged e.tag (texts [("service_id", id)])
  | e@(.operationFailed id source) =>
    .tagged e.tag (.ofEntries [("operation_id", .str id), ("source", source.encode)])
  | e@(.emptyProcessConfig) | e@(.cancelled) => .str e.tag
  | e@(.processNotFound id) => .tagged e.tag (texts [("process_id", id)])
  | e@(.componentInitFailed p c source) | e@(.componentStartFailed p c source)
  | e@(.componentStopFailed p c source) =>
    .tagged e.tag
      (.ofEntries [("process_id", .str p), ("component", .str c), ("source", source.encode)])
  | e@(.plugin p phase source) =>
    .tagged e.tag
      (.ofEntries [("plugin", .str p), ("phase", .str phase), ("source", source.encode)])
  | e@(.component c text) => .tagged e.tag (texts [("component", c), ("message", text)])
  | e@(.idGeneration text) | e@(.validation text) => .tagged e.tag (texts [("message", text)])
  | e@(.malformed text) | e@(.internal text) => .tagged e.tag (.str text)

def textField (name : String) : Field String := { name, codec := .text }

/-- A record of one text. -/
def oneText (name : String) (mk : String → Error) : Content Error :=
  .record fun entries ↦
    (Fields.ofEntries (.cons (textField name) .nil) entries).map fun (a, _) ↦ mk a

def twoTexts (first second : String) (mk : String → String → Error) : Content Error :=
  .record fun entries ↦
    (Fields.ofEntries (.cons (textField first) (.cons (textField second) .nil)) entries).map
      fun (a, b, _) ↦ mk a b

def sourceField (decode : Json → Decoded Error) : Field Error :=
  { name := "source", codec := ⟨encode, decode⟩ }

/-- A record of one text and the wrapped error. -/
def wrapping (name : String) (decode : Json → Decoded Error) (mk : String → Error → Error) :
    Content Error :=
  .record fun entries ↦
    (Fields.ofEntries (.cons (textField name) (.cons (sourceField decode) .nil)) entries).map
      fun (a, e, _) ↦ mk a e

/-- A record of two texts and the wrapped error. -/
def wrapping₂ (first second : String) (decode : Json → Decoded Error)
    (mk : String → String → Error → Error) : Content Error :=
  .record fun entries ↦
    (Fields.ofEntries
      (.cons (textField first) (.cons (textField second) (.cons (sourceField decode) .nil)))
      entries).map fun (a, b, e, _) ↦ mk a b e

def plainText (mk : String → Error) : Content Error :=
  .one fun v ↦ (Codec.text.decode v).map mk

/-- The kinds of errors in the order messages list them; `decode` reads the wrapped error. -/
def variants (decode : Json → Decoded Error) : List (Variant Error) := [
  ⟨"FactoryAlreadyRegistered", oneText "factory_id" .factoryAlreadyRegistered⟩,
  ⟨"FactoryNotFound", oneText "factory_id" .factoryNotFound⟩,
  ⟨"ComponentAlreadyExists", oneText "component_id" .componentAlreadyExists⟩,
  ⟨"ComponentNotFound", oneText "component_id" .componentNotFound⟩,
  ⟨"OperationNotFound", oneText "operation_id" .operationNotFound⟩,
  ⟨"NotAnOperation", oneText "operation_id" .notAnOperation⟩,
  ⟨"NotAService", oneText "service_id" .notAService⟩,
  ⟨"OperationFailed", wrapping "operation_id" decode .operationFailed⟩,
  ⟨"EmptyProcessConfig", .nothing .emptyProcessConfig⟩,
  ⟨"ProcessNotFound", oneText "process_id" .processNotFound⟩,
  ⟨"ComponentInitFailed", wrapping₂ "process_id" "component" decode .componentInitFailed⟩,
  ⟨"ComponentStartFailed", wrapping₂ "process_id" "component" decode .componentStartFailed⟩,
  ⟨"ComponentStopFailed", wrapping₂ "process_id" "component" decode .componentStopFailed⟩,
  ⟨"Plugin", wrapping₂ "plugin" "phase" decode .plugin⟩,
  ⟨"Component", twoTexts "component" "message" .component⟩,
  ⟨"IdGeneration", oneText "message" .idGeneration⟩,
  ⟨"Cancelled", .nothing .cancelled⟩,
  ⟨"Validation", oneText "message" .validation⟩,
  ⟨"Serde", plainText .malformed⟩,
  ⟨"Internal", plainText .internal⟩]

/-- Reads an error nested at most so many times. -/
def decodeWithin : Nat → Json → Decoded Error
  | 0, v => .error (.mismatch v "string or map")
  | n + 1, v => Variant.decode (variants (decodeWithin n)) v

/-- The nesting of the value bounds the nesting of the error. -/
def decode (v : Json) : Decoded Error := decodeWithin v.depth v

def codec : Codec Error := ⟨encode, decode⟩

/-- The error of a value that does not decode. -/
def ofDecode (e : DecodeError) : Error := .malformed e.message

end Error

/-- Decodes a value, or fails with an error of the host. -/
def Codec.read {α : Type} (c : Codec α) (v : Json) : Except Error α :=
  (c.decode v).mapError Error.ofDecode

end ComponentHost
