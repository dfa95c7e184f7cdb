/-
# Diagnostics

A diagnostic is reported at a span of a file. Diagnostics are listed by file,
start, end, code and message; strings are compared by code point, which is
the order of their UTF-8 bytes, and those that agree on all five keep the
order in which they came.

Key definitions: `Diagnostic`, `Finding`, `Diagnostic.order`,
`Diagnostic.inReportOrder`.
-/
import Deferral.Flags

namespace Deferral

/-- A range of offsets in a file; nothing requires the start to come first. -/
structure Offsets where
  start : Nat
  stop : Nat
deriving DecidableEq

/-- A range in a numbered file. -/
structure Span where
  file : Nat
  range : Offsets
deriving DecidableEq

/-- How serious a diagnostic is. -/
inductive Severity where
  | error
  | warning
  | note
deriving DecidableEq, Inhabited

namespace Severity

/-- The word for a severity, in messages and in JSON. -/
def word : Severity → String
  | error => "error"
  | warning => "warning"
  | note => "note"

/-- The severities, gravest first. -/
def list : List Severity := [error, warning, note]

end Severity

/-- The entity a diagnostic is about. -/
structure Subject where
  id : Nat
  name : String
deriving DecidableEq

/-- A diagnostic as it is reported. -/
structure Diagnostic where
  code : String
  severity : Severity
  message : String
  primary : Span
  subject : Option Subject
  notes : List String
  /-- The flags in effect at the reference site. -/
  flags : SiteFlags
deriving DecidableEq

/-- The outcome of a check: something to report, or nothing. -/
inductive Finding where
  | report (diagnostic : Diagnostic)
  | void
deriving DecidableEq

/-- The diagnostic of a finding that has one. -/
def Finding.diagnostic? : Finding → Option Diagnostic
  | .report d => some d
  | .void => none

/-! ### Codes -/

namespace Code

/-- A reference to a deprecated entity. -/
def deprecated : String := "DEP0001"

/-- A reference to a deprecated entity whose deprecation carries a message. -/
def deprecatedWithMessage : String := "DEP0002"

/-- A reference to an entity whose deprecation is an error. -/
def deprecatedError : String := "DEP0003"

/-- A use of an experimental entity. -/
def experimental : String := "EXP0001"

/-- The codes, in the order in which they are registered. -/
def list : List String := [deprecated, deprecatedWithMessage, deprecatedError, experimental]

end Code

/-! ### The order of a report -/

namespace Diagnostic

/-- By file, start, end, code and message. -/
def order (a b : Diagnostic) : Ordering :=
  (compare a.primary.file b.primary.file).then <|
    (compare a.primary.range.start b.primary.range.start).then <|
      (compare a.primary.range.stop b.primary.range.stop).then <|
        (compare a.code b.code).then (compare a.message b.message)

/-- The diagnostics in the order of a report. -/
def inReportOrder (ds : List Diagnostic) : List Diagnostic :=
  ds.mergeSort fun a b => (order a b).isLE

end Diagnostic
end Deferral
