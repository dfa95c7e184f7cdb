/-
# Trace entries

What a run tells an observer besides its answers: spans that are entered and
left, fields that become known inside a span, and events.

Key definitions: `TraceEntry`.
-/

namespace Deferral

/-- The value of a field of a trace entry. -/
inductive FieldValue where
  | text (s : String)
  | number (n : Nat)
deriving DecidableEq

/-- What a trace entry records. -/
inductive TraceKind where
  | span
  | record
  | exit
  | event
deriving DecidableEq

/-- The word for a kind of entry. -/
def TraceKind.word : TraceKind → String
  | .span => "span"
  | .record => "record"
  | .exit => "exit"
  | .event => "event"

/-- One entry of a trace. -/
structure TraceEntry where
  kind : TraceKind
  name : String
  fields : List (String × FieldValue)
deriving DecidableEq

end Deferral
