import ComponentHost.Wire.Record

/-!
Tagged alternatives: a bare tag as a string, or an object whose only key is the tag.

A tag without content may also be written with the content `null`; a tag with content needs it.
-/

set_option autoImplicit false

namespace ComponentHost

/-- What follows the tag of an alternative. -/
inductive Content (α : Type) where
  | nothing (value : α)
  | one (decode : Json → Decoded α)
  | record (ofEntries : Entries → Decoded α)

/-- An alternative, by its tag. -/
structure Variant (α : Type) where
  tag : String
  content : Content α

namespace Content

variable {α : Type}

/-- Reads the content of a tag that came as a bare string. -/
def ofBare : Content α → Decoded α
  | .nothing a => .ok a
  | .one _ => .error (.invalidType .unitVariant "newtype variant")
  | .record _ => .error (.invalidType .unitVariant "struct variant")

def ofJson : Content α → Json → Decoded α
  | .nothing a, .null => .ok a
  | .nothing _, v => .error (.mismatch v "unit")
  | .one decode, v => decode v
  | .record ofEntries, .obj entries => ofEntries entries
  | .record _, v => .error (.mismatch v "struct variant")

end Content

namespace Variant

variable {α : Type}

/-- The alternative with a tag. -/
def select (variants : List (Variant α)) (tag : String) : Decoded (Content α) :=
  match variants.find? (·.tag == tag) with
  | some v => .ok v.content
  | none => .error (.unknownVariant tag (variants.map (·.tag)))

def decode (variants : List (Variant α)) : Json → Decoded α
  | .str tag => do (← select variants tag).ofBare
  | .obj [(tag, v)] => do (← select variants tag).ofJson v
  | .obj _ => .error (.invalidValue .map "map with a single key")
  | v => .error (.mismatch v "string or map")

end Variant

/-- An object with one key. -/
def Json.tagged (tag : String) (content : Json) : Json := .obj [(tag, content)]

end ComponentHost
