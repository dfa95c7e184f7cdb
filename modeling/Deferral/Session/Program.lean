/-
# Programs

A program declares entities, each with its attributes, its container and the
way it is completed, and gives steps to perform on them. The binder of an
entity is itself a list of steps, and so is what a scripted computation does
before it answers. Each step that judges a reference brings its own options,
and a diagnostic keeps those that it was made with.

Key definitions: `Session.Step`, `Session.Entity`, `Session.Program`,
`Session.Program.chain`.
-/
import Deferral.Standing
import Deferral.Report

namespace Deferral
namespace Session

/-- A reference site: the position of the entity around it, its flags and its span. -/
structure Context where
  containing : Option Nat
  flags : SiteFlags
  site : Span
deriving DecidableEq

/-- Which standing decides a check. -/
inductive CheckRule where
  | deprecation
  | experimental
deriving DecidableEq, Inhabited

/-- The standing that a rule gives a reference, under some options. -/
def CheckRule.standing {ε : Type} (o : Options) : CheckRule → View ε → Reference ε → Standing
  | .deprecation => deprecationStanding o
  | .experimental => experimentalStanding

/-- How a scripted computation answers: it fails on its first calls, then stays undecided, and then
gives its results in turn, the last one for ever. -/
structure Plan where
  results : List Finding
  undecided : Nat
  failures : Nat
  /-- The number of calls that perform steps first; every call does where there is none. -/
  performing : Option Nat

mutual

/-- What a step does. Entities go by position, diagnostics and bags by name. -/
inductive Action where
  | state (entity : Nat)
  | force (entity : Nat)
  | chain (entity : Option Nat)
  | context (ctx : Context)
  | standing (rule : CheckRule) (entity : Nat) (ctx : Context) (options : Options)
  | pursue (rule : CheckRule) (entity : Nat) (ctx : Context) (options : Options)
  | diagnose (entity : Nat) (ctx : Context) (options : Options)
  | validate (options : Options)
  /-- Makes a diagnostic that checks a reference, under these options. -/
  | check (diag : String) (rule : CheckRule) (entity : Nat) (ctx : Context) (options : Options)
  /-- Makes a diagnostic whose computation always gives this finding. -/
  | constant (diag : String) (finding : Finding)
  /-- Makes a diagnostic that is known from the beginning. -/
  | known (diag : String) (diagnostic : Diagnostic)
  /-- Makes a diagnostic whose computation follows a plan. -/
  | scripted (diag : String) (plan : Plan) (during : List Step)
  /-- Resolves a diagnostic; what is undecided counts as nothing to report. -/
  | resolveOrVoid (diag : String)
  | resolve (diag : String)
  | peek (diag : String)
  | isResolved (diag : String)
  | recordReference (entity : Nat) (ctx : Context) (options : Options) (bag : String)
  | pushKnown (diagnostic : Diagnostic) (bag : String)
  | push (diag : String) (bag : String)
  | bag (bag : String)
  | collect (bag : String)
  | describe (entity : Nat)
  | describeDiagnostic (diag : String)
  /-- Several threads resolve a diagnostic at once. -/
  | race (diag : String) (threads : Nat)
  /-- Several threads compute a new diagnostic before any of them memoizes a result. -/
  | raceCompute (threads : Nat) (finding : Finding)
  /-- Performs steps on another thread and waits for it. -/
  | spawn (steps : List Step)
  /-- Starts a thread that is joined later. It performs its steps at once, unless it would have to
  wait for another thread, or is late: then it performs them when it is joined. -/
  | launch (thread : String) (late : Bool) (steps : List Step)
  | join (thread : String)

/-- An action, and where a failure inside it ends: at the step itself, whose answer it becomes, or
further out. -/
inductive Step where
  | guarded (action : Action)
  | uncaught (action : Action)

end

/-- What the step does. -/
def Step.action : Step → Action
  | .guarded a => a
  | .uncaught a => a

/-- The name of an action in a log. -/
def Action.name : Action → String
  | .state _ => "state"
  | .force _ => "force"
  | .chain _ => "chain"
  | .context _ => "context"
  | .standing _ _ _ _ => "classify"
  | .pursue _ _ _ _ => "settle"
  | .diagnose _ _ _ => "materialize"
  | .validate _ => "validate"
  | .check _ _ _ _ _ => "new"
  | .constant _ _ => "new"
  | .known _ _ => "new"
  | .scripted _ _ _ => "new"
  | .resolveOrVoid _ => "resolve"
  | .resolve _ => "try_resolve"
  | .peek _ => "peek"
  | .isResolved _ => "is_resolved"
  | .recordReference _ _ _ _ => "report"
  | .pushKnown _ _ => "push"
  | .push _ _ => "push"
  | .bag _ => "bag"
  | .collect _ => "resolve_all"
  | .describe _ => "debug"
  | .describeDiagnostic _ => "debug_diag"
  | .race _ _ => "race"
  | .raceCompute _ _ => "race_compute"
  | .spawn _ => "spawn"
  | .launch _ _ _ => "spawn"
  | .join _ => "join"

/-- What completes the attributes of an entity: steps, after which the first runs fail. -/
structure Binder where
  steps : List Step
  failures : Nat

/-- A binder that does nothing else. -/
def Binder.plain : Binder := ⟨[], 0⟩

/-- How an entity is completed. -/
inductive Behaviour where
  /-- By its binder, unless it is complete from the beginning. It may be wrapped, so that the
  demands to complete it are counted. -/
  | source (wrapped : Bool) (completed : Bool) (binder : Binder)
  /-- After a number of demands, or never if that is zero. Until then it may claim that the thread
  that asks is completing it. -/
  | stub (needs : Nat) (claimsHere : Bool)
  /-- Not at all: it is finished or it is not. -/
  | bare (finished : Bool)

/-- A declared entity. -/
structure Entity where
  id : Nat
  name : String
  kind : EntityKind
  /-- The position of the entity around this one. -/
  container : Option Nat
  attributes : Attributes
  behaviour : Behaviour

/-- The entity and its name, for a diagnostic. -/
def Entity.named (e : Entity) : Named := ⟨e.id, e.name, e.kind⟩

/-- Stands at every position without a declaration: an event that is never finished. -/
def Entity.absent : Entity := ⟨0, "", .event, none, .plain, .bare false⟩

/-- The entities of a session. -/
structure Program where
  entities : List Entity

namespace Program

/-- The entity at a position. -/
def entity (p : Program) (position : Nat) : Entity := p.entities.getD position .absent

/-- The positions of an entity and of at most `n` entities around it, innermost first. -/
def chainWithin (p : Program) : Nat → Nat → List Nat
  | 0, e => [e]
  | n + 1, e =>
    e ::
      match (p.entity e).container with
      | some c => p.chainWithin n c
      | none => []

/-- The positions of an entity and of each entity around it, innermost first. -/
def chain (p : Program) : Option Nat → List Nat
  | some e => p.chainWithin p.entities.length e
  | none => []

/-- A reference to a candidate from a site. -/
def reference (p : Program) (candidate : Nat) (ctx : Context) : Reference Nat :=
  ⟨candidate, p.chain ctx.containing, ctx.flags⟩

end Program
end Session
end Deferral
