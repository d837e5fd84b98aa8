import ComponentHost.Json.Basic
import ComponentHost.Number.Shortest

/-!
JSON text in its compact form: no blanks, entries in the order of the object, control characters
below U+0020 escaped and every other character written as it is.
-/

set_option autoImplicit false

namespace ComponentHost

def Number.text : Number → String
  | .int value => toString value
  | .float value => value.text

namespace Json

def hexDigit (n : Nat) : Char := Nat.digitChar n

/-- The characters a string character is written with. -/
def escape (c : Char) : List Char :=
  if c = '"' then ['\\', '"']
  else if c = '\\' then ['\\', '\\']
  else if c = '\x08' then ['\\', 'b']
  else if c = '\x0c' then ['\\', 'f']
  else if c = '\n' then ['\\', 'n']
  else if c = '\r' then ['\\', 'r']
  else if c = '\t' then ['\\', 't']
  else if c.toNat < 0x20 then
    ['\\', 'u', '0', '0', hexDigit (c.toNat / 16), hexDigit (c.toNat % 16)]
  else [c]

def quote (s : String) : String :=
  s.foldl (fun acc c ↦ if c.toNat ≥ 0x20 && c ≠ '"' && c ≠ '\\' then acc.push c
    else (escape c).foldl String.push acc) "\"" ++ "\""

mutual

def render : Json → String
  | .null => "null"
  | .bool value => if value then "true" else "false"
  | .num value => value.text
  | .str value => quote value
  | .arr items => "[" ++ renderItems true items ++ "]"
  | .obj entries => "\x7b" ++ renderEntries true entries ++ "\x7d"

def renderItems : Bool → List Json → String
  | _, [] => ""
  | first, x :: rest => (if first then "" else ",") ++ x.render ++ renderItems false rest

def renderEntries : Bool → List (String × Json) → String
  | _, [] => ""
  | first, (key, value) :: rest =>
    (if first then "" else ",") ++ quote key ++ ":" ++ value.render ++ renderEntries false rest

end

end Json

end ComponentHost
