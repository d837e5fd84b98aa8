import ComponentHost.Json.Basic
import ComponentHost.Number.Shortest
import ComponentHost.Text.Quoted

/-!
Why a JSON value is not the encoding of what was asked for, and the words for it.
-/

set_option autoImplicit false

namespace ComponentHost

/-- What was found where something else was expected. -/
inductive Found where
  | null
  | bool (value : Bool)
  | num (value : Number)
  | str (value : String)
  | sequence
  | map
  | unitVariant
  deriving DecidableEq, Repr

/-- Why decoding stopped. -/
inductive DecodeError where
  | invalidType (found : Found) (expected : String)
  | invalidValue (found : Found) (expected : String)
  | invalidLength (length : Nat) (expected : String)
  | missingField (name : String)
  | duplicateField (name : String)
  | unknownVariant (tag : String) (expected : List String)
  | malformed (reason : String)
  deriving DecidableEq, Repr

namespace Found

def ofJson : Json → Found
  | .null => .null
  | .bool b => .bool b
  | .num n => .num n
  | .str s => .str s
  | .arr _ => .sequence
  | .obj _ => .map

/-- Numbers show their kind, texts are quoted. -/
def message : Found → String
  | .null => "null"
  | .bool b => "boolean `" ++ (if b then "true" else "false") ++ "`"
  | .num (.int n) => "integer `" ++ toString n ++ "`"
  | .num (.float d) => "floating point `" ++ d.text ++ "`"
  | .str s => "string " ++ Text.quoted s
  | .sequence => "sequence"
  | .map => "map"
  | .unitVariant => "unit variant"

end Found

namespace DecodeError

def ticked (s : String) : String := "`" ++ s ++ "`"

/-- The tags that would have been accepted. -/
def choice : List String → String
  | [] => "there are no variants"
  | [a] => "expected " ++ ticked a
  | [a, b] => "expected " ++ ticked a ++ " or " ++ ticked b
  | tags => "expected one of " ++ ", ".intercalate (tags.map ticked)

def message : DecodeError → String
  | .invalidType found expected => "invalid type: " ++ found.message ++ ", expected " ++ expected
  | .invalidValue found expected => "invalid value: " ++ found.message ++ ", expected " ++ expected
  | .invalidLength length expected =>
    "invalid length " ++ toString length ++ ", expected " ++ expected
  | .missingField name => "missing field " ++ ticked name
  | .duplicateField name => "duplicate field " ++ ticked name
  | .unknownVariant tag expected => "unknown variant " ++ ticked tag ++ ", " ++ choice expected
  | .malformed reason => reason

/-- The error of finding this value where `expected` should stand. -/
def mismatch (value : Json) (expected : String) : DecodeError :=
  .invalidType (.ofJson value) expected

end DecodeError

end ComponentHost
