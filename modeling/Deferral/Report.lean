/-
# The wording of what is reported

The diagnostic for a reportable reference: its code, severity, message and
note follow from how the entity is deprecated, and its flags and span from
the site.

Key definitions: `deprecationReport`, `experimentalReport`.
-/
import Deferral.Attributes
import Deferral.Diagnostic
import Deferral.Policy

namespace Deferral

/-- What a diagnostic says about the entity it concerns. -/
structure Named where
  id : Nat
  name : String
  kind : EntityKind
deriving DecidableEq

/-- The entity as the subject of a diagnostic. -/
def Named.subject (e : Named) : Subject := ⟨e.id, e.name⟩

namespace Deprecation

/-- The code: an error, with a message, or plain. -/
def code (d : Deprecation) : String :=
  if d.isError then Code.deprecatedError
  else if d.message.isSome then Code.deprecatedWithMessage
  else Code.deprecated

/-- What is said about an entity with this name. -/
def wording (d : Deprecation) (name : String) : String :=
  match d.message with
  | some message => "`" ++ name ++ "` is " ++ d.kind.word ++ ": " ++ message
  | none => "`" ++ name ++ "` is " ++ d.kind.word

/-- An error stays an error; a warning about generated code may be lowered to a note. -/
def severity (d : Deprecation) (o : Options) (flags : SiteFlags) : Severity :=
  if d.isError then .error
  else if o.generatedCodeLowersWarnings && flags.contains .inGeneratedCode then .note
  else .warning

/-- The note that names the replacement. -/
def notes (d : Deprecation) : List String :=
  match d.replacement with
  | some replacement => ["use `" ++ replacement ++ "` instead"]
  | none => []

end Deprecation

/-- The diagnostic for a reference to a deprecated entity. An entity that is not deprecated is
described as if it were, without a message. -/
def deprecationReport (o : Options) (e : Named) (deprecation : Option Deprecation)
    (flags : SiteFlags) (site : Span) : Diagnostic :=
  let d := deprecation.getD .plain
  { code := d.code
    severity := d.severity o flags
    message := d.wording e.name
    primary := site
    subject := some e.subject
    notes := d.notes
    flags }

/-- The diagnostic for a use of an experimental entity. -/
def experimentalReport (e : Named) (flags : SiteFlags) (site : Span) : Diagnostic :=
  { code := Code.experimental
    severity := .warning
    message := e.kind.word ++ " `" ++ e.name ++ "` is experimental and may change or be removed"
    primary := site
    subject := some e.subject
    notes := []
    flags }

end Deferral
