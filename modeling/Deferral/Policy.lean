/-
# Suppression policy and options

A policy is a table of rules, tried in order. A rule applies at a site when
it names at least one flag and every flag it names is set there; the first
rule that applies decides, and a site to which none applies is reported.

Key definitions: `Policy.verdict`, `Options`, `Options.firstEmptyRule?`.
-/
import Deferral.Flags

namespace Deferral

/-- What a rule decides about the sites it applies to. -/
inductive Verdict where
  | suppress
  | report
deriving DecidableEq, Inhabited

/-- Applies at the sites where every flag in `flags` is set. -/
structure Rule where
  flags : SiteFlags
  verdict : Verdict
deriving DecidableEq

/-- An ordered table of rules. -/
structure Policy where
  rules : List Rule
deriving DecidableEq

/-- The rule applies at a site with the flags `site`; an empty rule applies nowhere. -/
def Rule.applies (r : Rule) (site : SiteFlags) : Bool := !r.flags.isEmpty && site.contains r.flags

/-- The verdict of the first rule that applies. -/
def Policy.verdict (p : Policy) (site : SiteFlags) : Verdict :=
  match p.rules.find? (·.applies site) with
  | some r => r.verdict
  | none => .report

/-- No rules: every site is reported. -/
def Policy.empty : Policy := ⟨[]⟩

/-- Sites that disable the checks, or that are known to be inside a deprecated member, are
silent. -/
def Policy.standard : Policy :=
  ⟨[⟨.suppressDeprecation, .suppress⟩, ⟨.inDeprecatedMember, .suppress⟩]⟩

/-- How references are checked. -/
structure Options where
  policy : Policy
  /-- Warnings about generated code are lowered to notes. -/
  generatedCodeLowersWarnings : Bool
  /-- A deprecated entity around the site silences the diagnostic. -/
  suppressInDeprecatedContainers : Bool
deriving DecidableEq

/-- The options in force where none are given. -/
def Options.standard : Options := ⟨.standard, true, true⟩

/-- The index of the first rule without flags, which its author must have meant otherwise. -/
def Options.firstEmptyRule? (o : Options) : Option Nat :=
  o.policy.rules.findIdx? (·.flags.isEmpty)

/-- The wording for a rule without flags. -/
def emptyRuleMessage (index : Nat) : String :=
  s!"suppression rule {index} has no flags and would match every site"

end Deferral
