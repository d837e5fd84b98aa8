import ComponentHost.Error.Basic

/-!
Generators of identifiers for processes.

A generator that is set up wrongly fails; it never hands out an empty identifier.
-/

set_option autoImplicit false

namespace ComponentHost

/-- A generator of identifiers. -/
inductive IdGenerator where
  /-- A stem and a number that counts up; it starts over after `2 ^ 64` identifiers. -/
  | sequential (stem : String) (issued : UInt64)
  /-- A stem and random bytes in hexadecimal. The bytes that it is to be given come from outside:
  these one after the other, and then zeros. -/
  | random (stem : String) (byteCount : Nat) (bytes : List UInt8)
  /-- A given list, then failure. -/
  | list (remaining : List String)
  deriving DecidableEq, Repr, Inhabited

namespace IdGenerator

def hexByte (b : UInt8) : List Char :=
  [Nat.digitChar (b.toNat / 16), Nat.digitChar (b.toNat % 16)]

/-- What a manager uses that is given no generator; its identifiers have sixteen digits. -/
def standard (bytes : List UInt8) : IdGenerator := .random "etl-" 8 bytes

/-- Hands out an identifier, or says why there is none; a failure changes nothing. -/
def next : IdGenerator → Except Error String × IdGenerator
  | .sequential stem issued =>
    if stem = "" then
      (.error (.idGeneration "sequential id prefix must not be empty"), .sequential stem issued)
    else (.ok (stem ++ toString (issued + 1)), .sequential stem (issued + 1))
  | .random stem byteCount bytes =>
    if byteCount = 0 then
      (.error (.idGeneration "random id length must be greater than zero"),
        .random stem byteCount bytes)
    else
      let drawn := (List.range byteCount).map fun k ↦ bytes.getD k 0
      (.ok (stem ++ String.ofList (drawn.flatMap hexByte)),
        .random stem byteCount (bytes.drop byteCount))
  | .list [] => (.error (.idGeneration "list exhausted"), .list [])
  | .list (id :: rest) => (.ok id, .list rest)

/-- So many requests in a row. -/
def take : Nat → IdGenerator → List (Except Error String)
  | 0, _ => []
  | n + 1, g => g.next.1 :: take n g.next.2

end IdGenerator

end ComponentHost
