import ComponentHost.Log.Config

/-!
Loggers: one keeps the records, the other writes them as lines.
-/

set_option autoImplicit false

namespace ComponentHost

/-- Where the records of a system go. -/
inductive Logger where
  /-- Kept, oldest first. -/
  | memory (records : List LogRecord)
  | lines (config : LogConfig)

namespace Logger

/-- The logger after a record. -/
def after : Logger → LogRecord → Logger
  | .memory records, r => .memory (records ++ [r])
  | .lines config, _ => .lines config

/-- The line a record appears as. -/
def line? : Logger → LogRecord → (time : Int) → Option LogLine
  | .memory _, _, _ => none
  | .lines config, r, time => config.line? r time

/-- Is `needle` a part of `text`? -/
def isPart (needle : List Char) : List Char → Bool
  | [] => needle.isEmpty
  | c :: rest => needle.isPrefixOf (c :: rest) || isPart needle rest

/-- Has a record of this level with this text been kept? A logger that keeps none has no answer. -/
def contains? : Logger → LogLevel → String → Option Bool
  | .memory records, level, needle =>
    some (records.any fun r ↦ r.level == level && isPart needle.toList r.message.toList)
  | .lines _, _, _ => none

end Logger

end ComponentHost
