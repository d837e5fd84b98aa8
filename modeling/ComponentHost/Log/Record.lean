import ComponentHost.Json.Printer
import ComponentHost.Json.Basic

/-!
Log levels and log records.
-/

set_option autoImplicit false

namespace ComponentHost

/-- How serious a record is. `fatal` is a level and nothing more. -/
inductive LogLevel where
  | debug
  | info
  | warning
  | error
  | fatal
  deriving DecidableEq, Repr

namespace LogLevel

def text : LogLevel → String
  | .debug => "DEBUG"
  | .info => "INFO"
  | .warning => "WARNING"
  | .error => "ERROR"
  | .fatal => "FATAL"

def severity : LogLevel → Nat
  | .debug => 0
  | .info => 1
  | .warning => 2
  | .error => 3
  | .fatal => 4

def upper (s : String) : String := String.ofList (s.toList.map Char.toUpper)

/-- The level of a name, in any case of ASCII letters; an unknown name means `info`. -/
def ofText (s : String) : LogLevel :=
  match upper s with
  | "DEBUG" => .debug
  | "WARN" => .warning
  | "WARNING" => .warning
  | "ERROR" => .error
  | "FATAL" => .fatal
  | _ => .info

end LogLevel

/-- A record of a log. -/
structure LogRecord where
  level : LogLevel
  message : String
  fields : Entries

namespace LogRecord

/-- The record as one object; `time` is in milliseconds since 1970. -/
def toJson (r : LogRecord) (time : Int) : Json :=
  .ofEntries [("level", .str r.level.text), ("message", .str r.message),
    ("timestamp_ms", .ofInt time), ("fields", .obj r.fields)]

end LogRecord

end ComponentHost
