import ComponentHost.Error.Codec
import ComponentHost.Log.Record

/-!
Which records a log line is written for, and in which form.
-/

set_option autoImplicit false

namespace ComponentHost

/-- The settings of a line logger. -/
structure LogConfig where
  /-- The name of the lowest level written. -/
  defaultLevel : String
  /-- One JSON object a line, instead of text. -/
  jsonFormat : Bool
  target : String
  deriving DecidableEq, Repr

namespace LogConfig

def default : LogConfig := ⟨"INFO", false, "zi_runtime"⟩

instance : Inhabited LogConfig := ⟨default⟩

def shape : RecordShape LogConfig where
  name := "ZiCLogConfig"
  fields :=
    .cons { name := "default_level", codec := .text } <|
    .cons { name := "json_format", codec := .bool } <|
    .cons { name := "target", codec := .text } .nil
  toTuple c := (c.defaultLevel, c.jsonFormat, c.target, ())
  ofTuple t := ⟨t.1, t.2.1, t.2.2.1⟩

def codec : Codec LogConfig := shape.codec

/-- Records at or above the threshold are written. -/
def shows (c : LogConfig) (r : LogRecord) : Bool :=
  (LogLevel.ofText c.defaultLevel).severity ≤ r.level.severity

end LogConfig

/-- Settings of which some are left open. -/
structure LogConfigDraft where
  defaultLevel : Option String := none
  jsonFormat : Option Bool := none
  target : Option String := none
  deriving DecidableEq, Repr

namespace LogConfigDraft

def shape : RecordShape LogConfigDraft where
  name := "ZiCLogConfigBuilder"
  fields :=
    .cons { name := "default_level", codec := .option .text, absence := .optional none } <|
    .cons { name := "json_format", codec := .option .bool, absence := .optional none } <|
    .cons { name := "target", codec := .option .text, absence := .optional none } .nil
  toTuple d := (d.defaultLevel, d.jsonFormat, d.target, ())
  ofTuple t := ⟨t.1, t.2.1, t.2.2.1⟩

def codec : Codec LogConfigDraft := shape.codec

def build (d : LogConfigDraft) : LogConfig :=
  { defaultLevel := d.defaultLevel.getD LogConfig.default.defaultLevel
    jsonFormat := d.jsonFormat.getD LogConfig.default.jsonFormat
    target := d.target.getD LogConfig.default.target }

end LogConfigDraft

/-- Reads settings; a value that does not fit counts as no settings at all. -/
def LogConfig.ofJson (v : Json) : LogConfig :=
  match LogConfigDraft.codec.decode v with
  | .ok d => d.build
  | .error _ => LogConfigDraft.build {}

/-- The levels that a line of output can have. -/
inductive LineLevel where
  | debug
  | info
  | warn
  | error
  deriving DecidableEq, Repr

def LineLevel.text : LineLevel → String
  | .debug => "DEBUG"
  | .info => "INFO"
  | .warn => "WARN"
  | .error => "ERROR"

def LogLevel.line : LogLevel → LineLevel
  | .debug => .debug
  | .info => .info
  | .warning => .warn
  | .error => .error
  | .fatal => .error

/-- A line of log output. -/
structure LogLine where
  level : LineLevel
  target : String
  message : String
  deriving DecidableEq, Repr

/-- The line a record is written as, if it is written at all. -/
def LogConfig.line? (c : LogConfig) (r : LogRecord) (time : Int) : Option LogLine :=
  if c.shows r then
    let message :=
      if c.jsonFormat then (r.toJson time).render
      else if r.fields.isEmpty then r.message
      else r.message ++ " " ++ (Json.obj r.fields).render
    some ⟨r.level.line, c.target, message⟩
  else none

end ComponentHost
