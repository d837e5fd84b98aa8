import ComponentHost.Time.Rfc3339
import ComponentHost.Wire.Variant

/-!
Where a plugin is in its life.
-/

set_option autoImplicit false

namespace ComponentHost

/-- Where a plugin is in its life. -/
inductive PluginState where
  | added
  | initialized
  | resourcesRegistered
  | started
  | stopped
  | stopFailed (message : String)
  deriving DecidableEq, Repr

namespace PluginState

def codec : Codec PluginState where
  encode
    | .added => .str "Added"
    | .initialized => .str "Initialized"
    | .resourcesRegistered => .str "ResourcesRegistered"
    | .started => .str "Started"
    | .stopped => .str "Stopped"
    | .stopFailed message => .tagged "StopFailed" (.str message)
  decode := Variant.decode [
    ⟨"Added", .nothing .added⟩,
    ⟨"Initialized", .nothing .initialized⟩,
    ⟨"ResourcesRegistered", .nothing .resourcesRegistered⟩,
    ⟨"Started", .nothing .started⟩,
    ⟨"Stopped", .nothing .stopped⟩,
    ⟨"StopFailed", .one fun v ↦ (Codec.text.decode v).map .stopFailed⟩]

/-- The state as diagnostics show it. -/
def summary : PluginState → String
  | .added => "Added"
  | .initialized => "Initialized"
  | .resourcesRegistered => "ResourcesRegistered"
  | .started => "Started"
  | .stopped => "Stopped"
  | .stopFailed message => "StopFailed(" ++ Text.quoted message ++ ")"

end PluginState

/-- A tracked plugin as it is listed. -/
structure PluginInfo where
  name : String
  state : PluginState
  addedAt : Timestamp

namespace PluginInfo

def shape : RecordShape PluginInfo where
  name := "ZiCPluginInfo"
  fields :=
    .cons { name := "name", codec := .text } <|
    .cons { name := "state", codec := PluginState.codec } <|
    .cons { name := "added_at", codec := Timestamp.codec } .nil
  toTuple i := (i.name, i.state, i.addedAt, ())
  ofTuple t := ⟨t.1, t.2.1, t.2.2.1⟩

def codec : Codec PluginInfo := shape.codec

end PluginInfo

end ComponentHost
