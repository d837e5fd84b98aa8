import ComponentHost.Error.Codec
import ComponentHost.Json.Summary

/-!
The configuration of a whole system, and the draft it is built from.
-/

set_option autoImplicit false

namespace ComponentHost

/-- The configuration of a system. The host does not interpret the custom part, except for the
services to start on their own. -/
structure Configuration where
  debug : Bool
  verbose : Bool
  custom : Json

namespace Configuration

def default : Configuration := ⟨false, false, .null⟩

instance : Inhabited Configuration := ⟨default⟩

def shape : RecordShape Configuration where
  name := "ZiCConfiguration"
  fields :=
    .cons { name := "debug", codec := .bool } <|
    .cons { name := "verbose", codec := .bool } <|
    .cons { name := "custom_config", codec := .json } .nil
  toTuple c := (c.debug, c.verbose, c.custom, ())
  ofTuple t := ⟨t.1, t.2.1, t.2.2.1⟩

def codec : Codec Configuration := shape.codec

def boolText (b : Bool) : String := if b then "true" else "false"

def summary (c : Configuration) : String :=
  "ZiCConfiguration \x7b debug: " ++ boolText c.debug ++ ", verbose: " ++ boolText c.verbose
    ++ ", custom_config: " ++ c.custom.summary ++ " \x7d"

end Configuration

/-- A configuration of which some parts are left open. -/
structure ConfigurationDraft where
  debug : Option Bool := none
  verbose : Option Bool := none
  custom : Option Json := none

namespace ConfigurationDraft

def shape : RecordShape ConfigurationDraft where
  name := "ZiCConfigurationBuilder"
  fields :=
    .cons { name := "debug", codec := .option .bool, absence := .optional none } <|
    .cons { name := "verbose", codec := .option .bool, absence := .optional none } <|
    .cons { name := "custom_config", codec := .option .json, absence := .optional none } .nil
  toTuple d := (d.debug, d.verbose, d.custom, ())
  ofTuple t := ⟨t.1, t.2.1, t.2.2.1⟩

def codec : Codec ConfigurationDraft := shape.codec

/-- Open parts take the default. -/
def build (d : ConfigurationDraft) : Configuration :=
  { debug := d.debug.getD Configuration.default.debug
    verbose := d.verbose.getD Configuration.default.verbose
    custom := d.custom.getD Configuration.default.custom }

end ConfigurationDraft

/-- Reads a configuration of which parts may be missing. -/
def Configuration.ofJson (v : Json) : Except Error Configuration :=
  (ConfigurationDraft.codec.read v).map ConfigurationDraft.build

end ComponentHost
