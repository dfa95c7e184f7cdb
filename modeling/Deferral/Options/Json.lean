/-
# Options, policies and attributes in JSON

Each type has one way of being written and is read by the same names. Options
may leave out any field, which then has its standard value, and refuse keys
that are no field; the records inside them ignore such keys. Options that
hold a rule without flags can be written but not read.

Key definitions: `Options.toJson`, `Options.decode`, `Options.ofText?`,
`OptionsFault`.
-/
import Deferral.Attributes
import Deferral.Json.Decode
import Deferral.Json.Reader
import Deferral.Json.Value
import Deferral.Policy

namespace Deferral

open Json

/-! ### Names -/

/-- The word for a verdict. -/
def Verdict.word : Verdict → String
  | .suppress => "suppress"
  | .report => "report"

/-- The verdicts by name. -/
def Verdict.variants : List (String × Verdict) :=
  [Verdict.suppress, Verdict.report].map fun v => (v.word, v)

/-- The kinds of entities by name. -/
def EntityKind.variants : List (String × EntityKind) := EntityKind.list.map fun k => (k.word, k)

/-- The kinds of deprecations by name. -/
def DeprecationKind.variants : List (String × DeprecationKind) :=
  DeprecationKind.list.map fun k => (k.word, k)

/-- A verdict, by name. -/
def Verdict.decode : Decoder Verdict := Doc.asVariant Verdict.variants

/-- A kind of entity, by name. -/
def EntityKind.decode : Decoder EntityKind := Doc.asVariant EntityKind.variants

/-- A kind of deprecation, by name. -/
def DeprecationKind.decode : Decoder DeprecationKind := Doc.asVariant DeprecationKind.variants

/-! ### Rules and policies -/

/-- A rule as it is gathered. -/
structure RuleParts where
  flags : Option SiteFlags
  verdict : Option Verdict

/-- How a rule is read. -/
def Rule.shape : RecordShape RuleParts Rule where
  name := "SuppressionRule"
  fields :=
    [{ name := "when"
       given := fun r => r.flags.isSome
       read := fun d r => do return { r with flags := some (← d.asFlags) } },
     { name := "verdict"
       given := fun r => r.verdict.isSome
       read := fun d r => do return { r with verdict := some (← Verdict.decode d) } }]
  blank := ⟨none, none⟩
  closed := false
  short := false
  finish r := do
    let flags ← require "when" r.flags
    let verdict ← require "verdict" r.verdict
    return ⟨flags, verdict⟩

/-- Reads a rule. -/
def Rule.decode : Decoder Rule := Rule.shape.decode

/-- How a policy is read, from the rules that are gathered. -/
def Policy.shape : RecordShape (Option (List Rule)) Policy where
  name := "SuppressionPolicy"
  fields :=
    [{ name := "rules"
       given := fun r => r.isSome
       read := fun d _ => do return some (← d.asList Rule.decode) }]
  blank := none
  closed := false
  short := false
  finish r := do return ⟨← require "rules" r⟩

/-- Reads a policy. -/
def Policy.decode : Decoder Policy := Policy.shape.decode

/-- The JSON form of a rule. -/
def Rule.toJson (r : Rule) : Value :=
  .object [("when", .string r.flags.text), ("verdict", .string r.verdict.word)]

/-- The JSON form of a policy. -/
def Policy.toJson (p : Policy) : Value := .object [("rules", .array (p.rules.map Rule.toJson))]

/-! ### Deprecations -/

/-- A deprecation as it is gathered. -/
structure DeprecationParts where
  message : Option (Option String)
  replacement : Option (Option String)
  isError : Option Bool
  kind : Option DeprecationKind

/-- How a deprecation is read. Its message and its replacement may be left out. -/
def Deprecation.shape : RecordShape DeprecationParts Deprecation where
  name := "DeprecationMetadata"
  fields :=
    [{ name := "message"
       given := fun r => r.message.isSome
       read := fun d r => do return { r with message := some (← d.asOptionalText) } },
     { name := "replacement"
       given := fun r => r.replacement.isSome
       read := fun d r => do return { r with replacement := some (← d.asOptionalText) } },
     { name := "is_error"
       given := fun r => r.isError.isSome
       read := fun d r => do return { r with isError := some (← d.asBool) } },
     { name := "kind"
       given := fun r => r.kind.isSome
       read := fun d r => do return { r with kind := some (← DeprecationKind.decode d) } }]
  blank := ⟨none, none, none, none⟩
  closed := false
  short := false
  finish r := do
    let isError ← require "is_error" r.isError
    let kind ← require "kind" r.kind
    return ⟨r.message.getD none, r.replacement.getD none, isError, kind⟩

/-- Reads a deprecation. -/
def Deprecation.decode : Decoder Deprecation := Deprecation.shape.decode

/-- The JSON form of a text that may be absent. -/
def optionalText : Option String → Value
  | some s => .string s
  | none => .null

/-- The JSON form of a deprecation. -/
def Deprecation.toJson (d : Deprecation) : Value :=
  .object
    [("message", optionalText d.message), ("replacement", optionalText d.replacement),
      ("is_error", .bool d.isError), ("kind", .string d.kind.word)]

/-! ### Options -/

/-- Options as they are gathered. -/
structure OptionsParts where
  policy : Option Policy
  generatedCodeLowersWarnings : Option Bool
  suppressInDeprecatedContainers : Option Bool

/-- The options that were gathered, with standard values for what was left out. -/
def OptionsParts.complete (r : OptionsParts) : Options where
  policy := r.policy.getD Options.standard.policy
  generatedCodeLowersWarnings :=
    r.generatedCodeLowersWarnings.getD Options.standard.generatedCodeLowersWarnings
  suppressInDeprecatedContainers :=
    r.suppressInDeprecatedContainers.getD Options.standard.suppressInDeprecatedContainers

/-- How options are read. -/
def Options.shape : RecordShape OptionsParts Options where
  name := "ResolveOptions"
  fields :=
    [{ name := "policy"
       given := fun r => r.policy.isSome
       read := fun d r => do return { r with policy := some (← Policy.decode d) } },
     { name := "generated_code_lowers_warnings"
       given := fun r => r.generatedCodeLowersWarnings.isSome
       read := fun d r => do return { r with generatedCodeLowersWarnings := some (← d.asBool) } },
     { name := "suppress_in_deprecated_containers"
       given := fun r => r.suppressInDeprecatedContainers.isSome
       read := fun d r => do
         return { r with suppressInDeprecatedContainers := some (← d.asBool) } }]
  blank := ⟨none, none, none⟩
  closed := true
  short := true
  finish r := .ok r.complete

/-- Reads options, which may hold rules without flags. -/
def Options.decode : Decoder Options := Options.shape.decode

/-- The JSON form of options. -/
def Options.toJson (o : Options) : Value :=
  .object
    [("policy", o.policy.toJson),
      ("generated_code_lowers_warnings", .bool o.generatedCodeLowersWarnings),
      ("suppress_in_deprecated_containers", .bool o.suppressInDeprecatedContainers)]

/-! ### Texts -/

/-- Decodes a text: one document with nothing but blanks behind it. -/
def decodeText {α : Type} (decoder : Decoder α) (text : String) : Except Fault α :=
  let (doc, atEnd) := Json.read text
  match decoder doc with
  | .ok a => if atEnd then .ok a else .error (.text .illFormed)
  | .error fault => .error fault

/-- Why a text does not give options. -/
inductive OptionsFault where
  | malformed (fault : Fault)
  | emptyRule (index : Nat)
deriving DecidableEq

/-- What stands before the wording of a fault in the text of options. -/
def malformedOptions : String := "malformed resolve options: "

/-- The options in a text. Each rule must have a flag. -/
def Options.ofText? (text : String) : Except OptionsFault Options :=
  match decodeText Options.decode text with
  | .error fault => .error (.malformed fault)
  | .ok o =>
    match o.firstEmptyRule? with
    | some index => .error (.emptyRule index)
    | none => .ok o

/-- The text of options. -/
def Options.text (o : Options) : String := o.toJson.text

end Deferral
