import ComponentHost.Error.Codec
import ComponentHost.Json.Fields

/-!
Scripts: what a component or plugin of a scenario does in each of its phases.

In a phase the owner writes to the journal, takes the steps given for the phase, and then fails if
the script says so, as often as it says.
-/

set_option autoImplicit false

namespace ComponentHost.Scenario

/-- What a component or plugin of a scenario does. -/
structure Script where
  name : String
  /-- The steps to take in each phase. -/
  steps : String → List Json
  /-- The phases that fail. -/
  failOn : List String
  /-- How often a phase fails; without a bound if there is none. -/
  failTimes : Option Nat
  /-- The error instead of the usual one. -/
  failError : Option Error
  /-- How often each phase has failed. -/
  failures : String → Nat
  /-- What an execution returns instead of its input. -/
  output : Option Json

namespace Script

def texts : Json → List String
  | .str s => [s]
  | .arr items => items.filterMap Json.str?
  | _ => []

/-- Reads a script from the fields that describe it. -/
def ofJson (name : String) (v : Json) : Script where
  name := name
  steps phase := (v.field "on").items phase
  failOn := texts (v.field "fail_on")
  failTimes := (v.get? "fail_times").bind Json.nat?
  failError := (v.get? "fail_error").bind fun e ↦ (Error.decode e).toOption
  failures _ := 0
  output := v.get? "output"

instance : Inhabited Script := ⟨ofJson "" .null⟩

/-- Does the phase fail now? -/
def fails (s : Script) (phase : String) : Bool :=
  s.failOn.contains phase &&
    match s.failTimes with
    | some n => decide (s.failures phase < n)
    | none => true

/-- One more failure of a phase. -/
def failed (s : Script) (phase : String) : Script :=
  { s with failures := fun p ↦ if p = phase then s.failures p + 1 else s.failures p }

/-- The error a phase fails with. -/
def error (s : Script) (phase : String) : Error :=
  s.failError.getD (.component s.name (phase ++ " refused"))

end Script

end ComponentHost.Scenario
