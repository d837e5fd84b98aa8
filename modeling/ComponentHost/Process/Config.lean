import ComponentHost.Component.Config

/-!
The declared components of a process, in start order.

Names have to be there and distinct (`ProcessConfig.validate`), which makes the component table
of a process complete.
-/

set_option autoImplicit false

namespace ComponentHost

/-- The declaration of a process. -/
structure ProcessConfig where
  components : List ComponentConfig
  deriving Inhabited

namespace ProcessConfig

def shape : RecordShape ProcessConfig where
  name := "ZiCETLProcessConfig"
  fields :=
    .cons { name := "components", codec := .list ComponentConfig.codec
            absence := .default [] } .nil
  toTuple c := (c.components, ())
  ofTuple t := ⟨t.1⟩

def codec : Codec ProcessConfig := shape.codec

/-- The names, as declared. -/
def names (c : ProcessConfig) : List String := c.components.map (·.name)

/-- The first component without a name, or with a name seen before, is the error. -/
def checkNames (seen : List String) : List ComponentConfig → Except Error Unit
  | [] => .ok ()
  | c :: rest =>
    if c.name = "" then
      .error (.validation ("component " ++ Error.quoted c.id ++ " has an empty name"))
    else if c.name ∈ seen then
      .error (.validation ("duplicate component name " ++ Error.quoted c.name))
    else checkNames (c.name :: seen) rest

def validate (c : ProcessConfig) : Except Error Unit :=
  match c.components with
  | [] => .error .emptyProcessConfig
  | components => checkNames [] components

end ProcessConfig

end ComponentHost
