import ComponentHost.Wire.DecodeError

/-!
How the values of a type are written as JSON and read back.

A codec pairs the two directions; what it means for one to undo the other is `Codec.Lawful`.
-/

set_option autoImplicit false

namespace ComponentHost

/-- The outcome of reading a value. -/
abbrev Decoded (α : Type) := Except DecodeError α

/-- A written form of a type. -/
structure Codec (α : Type) where
  encode : α → Json
  decode : Json → Decoded α

namespace Codec

/-- What was written is read back. -/
def Lawful {α : Type} (c : Codec α) : Prop := ∀ a, c.decode (c.encode a) = .ok a

/-- Any JSON value stands for itself. -/
def json : Codec Json where
  encode := id
  decode := .ok

def text : Codec String where
  encode := .str
  decode
    | .str s => .ok s
    | v => .error (.mismatch v "a string")

def bool : Codec Bool where
  encode := .bool
  decode
    | .bool b => .ok b
    | v => .error (.mismatch v "a boolean")

/-- An object with any keys. -/
def map : Codec Entries where
  encode := .obj
  decode
    | .obj entries => .ok entries
    | v => .error (.mismatch v "a map")

/-- `null` stands for no value. -/
def option {α : Type} (c : Codec α) : Codec (Option α) where
  encode
    | some a => c.encode a
    | none => .null
  decode
    | .null => .ok none
    | v => (c.decode v).map some

/-- Reads the items in order, up to the first that fails. -/
def decodeItems {α : Type} (c : Codec α) : List Json → Decoded (List α)
  | [] => .ok []
  | v :: rest => do
    let a ← c.decode v
    let as ← decodeItems c rest
    return a :: as

def list {α : Type} (c : Codec α) : Codec (List α) where
  encode as := .arr (as.map c.encode)
  decode
    | .arr items => decodeItems c items
    | v => .error (.mismatch v "a sequence")

end Codec

end ComponentHost
