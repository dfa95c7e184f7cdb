/-
# Descriptions

The text of entities and diagnostics, with every field named. An entity that
is wrapped or a stub is shown by its identifier alone where another value
refers to it, and an entity that is neither is shown in full. The number of a
thread depends on the schedule; `Text.hideThreads` hides such numbers in a
text, wherever they stand.

Key definitions: `Text.hideThreads`, `Session.describeEntity`,
`Session.describeCell`.
-/
import Deferral.Session.World
import Deferral.Text.Quoted

namespace Deferral

open Text

/-! ### Numbers of threads -/

/-- The length of `ThreadId(`, a number and `)` where a text begins with them. -/
def Text.threadLength? (cs : List Char) : Option Nat :=
  let mark := ['T', 'h', 'r', 'e', 'a', 'd', 'I', 'd', '(']
  let behind := cs.drop mark.length
  let digits := behind.takeWhile Char.isDigit
  if mark.isPrefixOf cs && !digits.isEmpty && (behind.drop digits.length).head? == some ')' then
    some (mark.length + digits.length + 1)
  else none

/-- Hides the numbers of threads behind the first `n` characters, which are dropped. -/
def Text.hideThreadsAfter : Nat → List Char → List Char
  | _, [] => []
  | n + 1, _ :: cs => hideThreadsAfter n cs
  | 0, c :: cs =>
    match threadLength? (c :: cs) with
    | some length => (tuple "ThreadId" ["_"]).toList ++ hideThreadsAfter (length - 1) cs
    | none => c :: hideThreadsAfter 0 cs

/-- The text with `_` in place of the numbers of threads. -/
def Text.hideThreads (s : String) : String := String.ofList (hideThreadsAfter 0 s.toList)

/-! ### Values -/

/-- The text of a flag set. -/
def SiteFlags.describe (f : SiteFlags) : String :=
  tuple "ContextFlags" [if f.isEmpty then "0x0" else f.text]

/-- The name of a kind of entity. -/
def EntityKind.describe : EntityKind → String
  | .namespaceKind => "Namespace"
  | .type => "Type"
  | .method => "Method"
  | .operator => "Operator"
  | .field => "Field"
  | .property => "Property"
  | .event => "Event"

/-- The name of a kind of deprecation. -/
def DeprecationKind.describe : DeprecationKind → String
  | .deprecated => "Deprecated"
  | .obsolete => "Obsolete"

/-- The text of a deprecation. -/
def Deprecation.describe (d : Deprecation) : String :=
  record "DeprecationMetadata"
    [("message", optional (d.message.map quoted)),
      ("replacement", optional (d.replacement.map quoted)),
      ("is_error", truth d.isError),
      ("kind", d.kind.describe)]

/-- The text of the attributes of an entity. -/
def Attributes.describe (a : Attributes) : String :=
  record "AttrData"
    [("deprecation", optional (a.deprecation.map (·.describe))),
      ("experimental", truth a.experimental)]

/-- The text of a completion state. -/
def Completion.describe : Completion → String
  | .notStarted => "not started"
  | .inProgress owner => "in progress on " ++ tuple "ThreadId" [toString owner]
  | .complete data => "complete " ++ data.describe

/-- The text of a completion state with the number of starts. -/
def Binding.describe (b : Binding) : String :=
  record "AttrCompletion"
    [("state", quoted b.completion.describe), ("bind_count", toString b.starts)]

/-- The text of a span. -/
def Span.describe (s : Span) : String :=
  record "Span"
    [("file", tuple "FileId" [toString s.file]),
      ("range", record "TextRange"
        [("start", toString s.range.start), ("end", toString s.range.stop)])]

/-- The text of the identifier of an entity. -/
def describeId (id : Nat) : String := tuple "EntityId" [toString id]

/-- The text of the subject of a diagnostic. -/
def Subject.describe (s : Subject) : String :=
  record "Subject" [("id", describeId s.id), ("name", quoted s.name)]

/-- The name of a severity. -/
def Severity.describe : Severity → String
  | .error => "Error"
  | .warning => "Warning"
  | .note => "Note"

/-- The text of a diagnostic. -/
def Diagnostic.describe (d : Diagnostic) : String :=
  record "Diagnostic"
    [("code", quoted d.code),
      ("severity", d.severity.describe),
      ("message", quoted d.message),
      ("primary", d.primary.describe),
      ("subject", optional (d.subject.map (·.describe))),
      ("notes", listed (d.notes.map quoted)),
      ("flags", d.flags.describe)]

/-- The text of a finding. -/
def Finding.describe : Finding → String
  | .report d => tuple "Report" [d.describe]
  | .void => "Void"

/-- The name of a verdict. -/
def Verdict.describe : Verdict → String
  | .suppress => "Suppress"
  | .report => "Report"

/-- The text of a rule. -/
def Rule.describe (r : Rule) : String :=
  record "SuppressionRule" [("when", r.flags.describe), ("verdict", r.verdict.describe)]

/-- The text of a policy. -/
def Policy.describe (p : Policy) : String :=
  record "SuppressionPolicy" [("rules", listed (p.rules.map (·.describe)))]

/-- The text of options. -/
def Options.describe (o : Options) : String :=
  record "ResolveOptions"
    [("policy", o.policy.describe),
      ("generated_code_lowers_warnings", truth o.generatedCodeLowersWarnings),
      ("suppress_in_deprecated_containers", truth o.suppressInDeprecatedContainers)]

namespace Session

variable (p : Program) (w : World)

/-! ### Entities -/

/-- An identifier as it is shown, behind a word for what it identifies. -/
def shownId (word : String) (id : Nat) : String := "<" ++ word ++ "#" ++ toString id ++ ">"

/-- The text of an entity that is completed by a binder, with the text of its container. -/
def describeSource (e : Nat) (container : Option String) : String :=
  let entity := p.entity e
  record "SourceEntity"
    [("id", describeId entity.id),
      ("name", quoted entity.name),
      ("kind", entity.kind.describe),
      ("containing", optional container),
      ("attrs", (w.bindings e).describe)]

/-- The text of a bare entity. -/
def describeBare (e : Entity) (finished : Bool) : String :=
  tuple "Bare"
    [toString e.id, quoted e.name, optional (e.attributes.deprecation.map (·.describe)),
      truth finished]

/-- The text of an entity where another value refers to it, to a depth of `n` containers. -/
def describeReference : Nat → Nat → String
  | n, e =>
    match (p.entity e).behaviour with
    | .source true _ _ => shownId "" (p.entity e).id
    | .stub _ _ => shownId "stub " (p.entity e).id
    | .bare finished => describeBare (p.entity e) finished
    | .source false _ _ =>
      match n with
      | 0 => describeSource p w e none
      | n + 1 => describeSource p w e ((p.entity e).container.map (describeReference n))

/-- The text of an entity where a value of the session refers to it. -/
def describeReferred (e : Nat) : String := describeReference p w p.entities.length e

/-- The text of the entity at a position. -/
def describeEntity (e : Nat) : String :=
  match (p.entity e).behaviour with
  | .source _ _ _ => describeSource p w e ((p.entity e).container.map (describeReferred p w))
  | _ => describeReferred p w e

/-! ### Diagnostics -/

/-- The text of a reference site. -/
def describeContext (ctx : Context) : String :=
  record "CallingContext"
    [("containing", optional (ctx.containing.map (describeReferred p w))),
      ("flags", ctx.flags.describe),
      ("site", ctx.site.describe)]

/-- The name of a kind of check. -/
def CheckRule.describe : CheckRule → String
  | .deprecation => "DeprecationCheck"
  | .experimental => "ExperimentalCheck"

/-- The text of a diagnostic that is computed on demand. -/
def describeDeferred (computation : String) (slot : WriteOnce Finding) : String :=
  record "LazyDiagnostic"
    [("computation", computation),
      ("result", optional (slot.stored.map (·.value.describe)))]

/-- The text of a diagnostic. One with a constant computation has no text. -/
def describeCell : Cell → String
  | .known o => tuple "Resolved" [o.value.describe]
  | .deferred (.constant _) _ _ => ""
  | .deferred (.scripted _ _ _) slot _ => describeDeferred "<scripted>" slot
  | .deferred (.check rule candidate ctx o) slot _ =>
    describeDeferred
      (record rule.describe
        [("candidate", describeReferred p w candidate),
          ("context", describeContext p w ctx),
          ("options", o.describe)])
      slot

end Session
end Deferral
