import ComponentHost.Wire.Codec

/-!
Records: values with named fields, written as an object or read from an array of the fields in
their order.

A record is declared by its list of fields. Reading an object takes the entries in the order of
the object and stops at the first that does not fit; a key that names no field is passed over,
and a field named twice, if only through another spelling, is an error. What is missing at the end
is filled in by the field's own rule. Reading an array takes one item a field; items may be missing
at the end where the fields allow it, and none may be left over.
-/

set_option autoImplicit false

namespace ComponentHost

/-- What stands for a field that is not given. -/
inductive Absence (α : Type) where
  /-- The field has to be there. -/
  | required
  /-- An object may lack it, an array may not. -/
  | optional (value : α)
  /-- Both may lack it. -/
  | default (value : α)

/-- A field of a record. -/
structure Field (α : Type) where
  name : String
  /-- Further spellings accepted in an object. -/
  aliases : List String := []
  codec : Codec α
  absence : Absence α := .required
  /-- Values that are left out when the record is written. -/
  hidden : α → Bool := fun _ ↦ false

namespace Field

variable {α : Type}

def named (f : Field α) (key : String) : Bool := key == f.name || f.aliases.contains key

/-- The value of a field that an object lacks. -/
def fill (f : Field α) : Decoded α :=
  match f.absence with
  | .required => .error (.missingField f.name)
  | .optional a | .default a => .ok a

/-- The value of a field that an array ends before, or nothing. -/
def trailing? (f : Field α) : Option α :=
  match f.absence with
  | .default a => some a
  | _ => none

end Field

/-- The fields of a record in their order; the type collects the types of the values. -/
inductive Fields : Type → Type 1 where
  | nil : Fields Unit
  | cons {α β : Type} (head : Field α) (tail : Fields β) : Fields (α × β)

namespace Fields

/-- How many fields there are. -/
def count : {τ : Type} → Fields τ → Nat
  | _, .nil => 0
  | _, .cons _ tail => tail.count + 1

/-- The fields read so far. -/
def Slots : {τ : Type} → Fields τ → Type
  | _, .nil => Unit
  | _, @cons α _ _ tail => Option α × tail.Slots

def vacant : {τ : Type} → (fs : Fields τ) → fs.Slots
  | _, .nil => ()
  | _, .cons _ tail => (none, tail.vacant)

/-- Takes one entry of an object in. -/
def put : {τ : Type} → (fs : Fields τ) → fs.Slots → String → Json → Decoded fs.Slots
  | _, .nil, slots, _, _ => .ok slots
  | _, @cons α _ f tail, slots, key, value =>
    let (slot, slots) : Option α × tail.Slots := slots
    if f.named key then
      match slot with
      | some _ => .error (.duplicateField f.name)
      | none => (f.codec.decode value).map fun a ↦ (some a, slots)
    else (tail.put slots key value).map fun slots ↦ (slot, slots)

def putAll {τ : Type} (fs : Fields τ) : fs.Slots → Entries → Decoded fs.Slots
  | slots, [] => .ok slots
  | slots, (key, value) :: rest =>
    match fs.put slots key value with
    | .ok slots => fs.putAll slots rest
    | .error e => .error e

/-- The values, once all entries are in. -/
def finish : {τ : Type} → (fs : Fields τ) → fs.Slots → Decoded τ
  | _, .nil, _ => .ok ()
  | _, @cons α _ f tail, slots => do
    let (slot, slots) : Option α × tail.Slots := slots
    let a ← match slot with
      | some a => .ok a
      | none => f.fill
    let rest ← tail.finish slots
    return (a, rest)

def ofEntries {τ : Type} (fs : Fields τ) (entries : Entries) : Decoded τ :=
  match fs.putAll fs.vacant entries with
  | .ok slots => fs.finish slots
  | .error e => .error e

/-- Reads one item a field; `short` is the error of an array that ends before the field at the
given place. -/
def ofItems : {τ : Type} → (fs : Fields τ) → (short : Nat → DecodeError) → Nat → List Json →
    Decoded τ
  | _, .nil, _, _, _ => .ok ()
  | _, .cons f tail, short, place, [] =>
    match f.trailing? with
    | some a => (tail.ofItems short (place + 1) []).map fun rest ↦ (a, rest)
    | none => .error (short place)
  | _, .cons f tail, short, place, item :: items => do
    let a ← f.codec.decode item
    let rest ← tail.ofItems short (place + 1) items
    return (a, rest)

/-- The entries a record is written with, in the order of the fields. -/
def toEntries : {τ : Type} → Fields τ → τ → Entries
  | _, .nil, _ => []
  | _, .cons f tail, (a, rest) =>
    if f.hidden a then tail.toEntries rest
    else (f.name, f.codec.encode a) :: tail.toEntries rest

end Fields

/-- A record type, by the name it has in messages, its fields, and its values as tuples. -/
structure RecordShape (ρ : Type) where
  name : String
  {τ : Type}
  fields : Fields τ
  toTuple : ρ → τ
  ofTuple : τ → ρ

namespace RecordShape

variable {ρ : Type}

def title (shape : RecordShape ρ) : String := "struct " ++ shape.name

/-- The error of an array that ends before the field at `place`. -/
def tooShort (shape : RecordShape ρ) (place : Nat) : DecodeError :=
  let n := shape.fields.count
  .invalidLength place
    (shape.title ++ " with " ++ toString n ++ (if n = 1 then " element" else " elements"))

def ofItems (shape : RecordShape ρ) (items : List Json) : Decoded ρ := do
  let tuple ← shape.fields.ofItems shape.tooShort 0 items
  if items.length > shape.fields.count then
    throw (.invalidLength items.length "fewer elements in array")
  return shape.ofTuple tuple

def ofEntries (shape : RecordShape ρ) (entries : Entries) : Decoded ρ :=
  (shape.fields.ofEntries entries).map shape.ofTuple

def codec (shape : RecordShape ρ) : Codec ρ where
  encode r := .ofEntries (shape.fields.toEntries (shape.toTuple r))
  decode
    | .obj entries => shape.ofEntries entries
    | .arr items => shape.ofItems items
    | v => .error (.mismatch v shape.title)

end RecordShape

end ComponentHost
