import ComponentHost.Json.Printer
import ComponentHost.Text.Quoted

/-!
A JSON value as it appears inside a summary of the configuration: every part shows its kind.
-/

set_option autoImplicit false

namespace ComponentHost.Json

mutual

def summary : Json → String
  | .null => "Null"
  | .bool value => if value then "Bool(true)" else "Bool(false)"
  | .num value => "Number(" ++ value.text ++ ")"
  | .str value => "String(" ++ Text.quoted value ++ ")"
  | .arr items => "Array [" ++ summaryItems true items ++ "]"
  | .obj entries => "Object \x7b" ++ summaryEntries true entries ++ "\x7d"

def summaryItems : Bool → List Json → String
  | _, [] => ""
  | first, x :: rest => (if first then "" else ", ") ++ x.summary ++ summaryItems false rest

def summaryEntries : Bool → List (String × Json) → String
  | _, [] => ""
  | first, (key, value) :: rest =>
    (if first then "" else ", ") ++ Text.quoted key ++ ": " ++ value.summary
      ++ summaryEntries false rest

end

end ComponentHost.Json
