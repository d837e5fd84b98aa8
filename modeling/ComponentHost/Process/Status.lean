import ComponentHost.Time.Rfc3339
import ComponentHost.Wire.Variant

/-!
Where a process is in its life, and the view of a process that operations return.
-/

set_option autoImplicit false

namespace ComponentHost

/-- Where a process is in its life. -/
inductive ProcessStatus where
  | uninitialized
  | initialized
  | running
  | stopped
  | failed (reason : String)
  deriving DecidableEq, Repr, Inhabited

namespace ProcessStatus

def text : ProcessStatus → String
  | .uninitialized => "uninitialized"
  | .initialized => "initialized"
  | .running => "running"
  | .stopped => "stopped"
  | .failed _ => "failed"

def codec : Codec ProcessStatus where
  encode
    | .uninitialized => .str "Uninitialized"
    | .initialized => .str "Initialized"
    | .running => .str "Running"
    | .stopped => .str "Stopped"
    | .failed reason => .tagged "Failed" (.str reason)
  decode := Variant.decode [
    ⟨"Uninitialized", .nothing .uninitialized⟩,
    ⟨"Initialized", .nothing .initialized⟩,
    ⟨"Running", .nothing .running⟩,
    ⟨"Stopped", .nothing .stopped⟩,
    ⟨"Failed", .one fun v ↦ (Codec.text.decode v).map .failed⟩]

/-- Why a process failed. -/
def failure? : ProcessStatus → Option String
  | .failed reason => some reason
  | _ => none

/-- The status as the summary of a process shows it. -/
def summary : ProcessStatus → String
  | .uninitialized => "Uninitialized"
  | .initialized => "Initialized"
  | .running => "Running"
  | .stopped => "Stopped"
  | .failed reason => "Failed(" ++ Text.quoted reason ++ ")"

end ProcessStatus

/-- A process as operations return it. -/
structure ProcessSnapshot where
  id : String
  status : String
  failure : Option String
  components : List String
  createdAt : Timestamp

namespace ProcessSnapshot

/-- A failure is written only when there is one. -/
def shape : RecordShape ProcessSnapshot where
  name := "ZiCProcessSnapshot"
  fields :=
    .cons { name := "id", codec := .text } <|
    .cons { name := "status", codec := .text } <|
    .cons { name := "failure", codec := .option .text, absence := .default none
            hidden := Option.isNone } <|
    .cons { name := "components", codec := .list .text } <|
    .cons { name := "created_at", codec := Timestamp.codec } .nil
  toTuple s := (s.id, s.status, s.failure, s.components, s.createdAt, ())
  ofTuple t := ⟨t.1, t.2.1, t.2.2.1, t.2.2.2.1, t.2.2.2.2.1⟩

def codec : Codec ProcessSnapshot := shape.codec

end ProcessSnapshot

end ComponentHost
