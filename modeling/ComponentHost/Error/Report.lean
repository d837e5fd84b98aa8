import ComponentHost.Error.Codec

/-!
What a client is told about an error: its kind and text, the kind of its innermost cause, how deep
that lies, and the whole error in its encoded form.
-/

set_option autoImplicit false

namespace ComponentHost

namespace Error

/-- The entries of a report on an error. -/
def report (e : Error) : Entries :=
  [("error", .str e.tag), ("message", .str e.message), ("root", .str e.rootCause.tag),
    ("depth", .ofNat e.depth), ("detail", e.encode)]

end Error

/-- An outcome as a client is told: the value under `ok`, or the report. -/
def reportOutcome : Except Error Json → Entries
  | .ok v => [("ok", v)]
  | .error e => e.report

end ComponentHost
