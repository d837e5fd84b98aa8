import ComponentHost.Text.Unprintable

/-!
Text in double quotes, for messages and summaries: a quote, a backslash and the common control
characters are escaped by a letter, and a character that cannot be seen by its number.
-/

set_option autoImplicit false

namespace ComponentHost.Text

def hexText (n : Nat) : String := String.ofList (Nat.toDigits 16 n)

/-- How a character is written between the quotes. -/
def escape (c : Char) : String :=
  if c = '"' then "\\\""
  else if c = '\\' then "\\\\"
  else if c = '\n' then "\\n"
  else if c = '\r' then "\\r"
  else if c = '\t' then "\\t"
  else if c.toNat = 0 then "\\0"
  else if c.toNat < 0x20 || c.toNat = 0x7f || (c.toNat > 0x7f && unprintable c) then
    "\\u\x7b" ++ hexText c.toNat ++ "\x7d"
  else c.toString

def quoted (s : String) : String := "\"" ++ s.foldl (fun acc c ↦ acc ++ escape c) "" ++ "\""

end ComponentHost.Text
