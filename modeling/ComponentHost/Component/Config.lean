import ComponentHost.Error.Codec

/-!
What a factory needs to build one component.
-/

set_option autoImplicit false

namespace ComponentHost

/-- The declaration of a component. -/
structure ComponentConfig where
  id : String
  name : String
  description : String
  /-- The factory that builds the component. -/
  factory : String
  /-- Whatever the factory and the component make of it. -/
  custom : Entries

namespace ComponentConfig

/-- The factory has three accepted spellings, the custom part two. -/
def shape : RecordShape ComponentConfig where
  name := "ZiCComponentConfig"
  fields :=
    .cons { name := "id", codec := .text } <|
    .cons { name := "name", codec := .text } <|
    .cons { name := "description", codec := .text, absence := .default "" } <|
    .cons { name := "factoryId", aliases := ["factoryID", "factory_id"], codec := .text } <|
    .cons { name := "customConfig", aliases := ["custom_config"], codec := .map
            absence := .default [] } .nil
  toTuple c := (c.id, c.name, c.description, c.factory, c.custom, ())
  ofTuple t := ⟨t.1, t.2.1, t.2.2.1, t.2.2.2.1, t.2.2.2.2.1⟩

def codec : Codec ComponentConfig := shape.codec

end ComponentConfig

end ComponentHost
