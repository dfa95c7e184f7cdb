/-
# Completion and resolution in a session

Demanding the completion of an entity may run its binder; deciding a check
may demand completion of several; resolving a diagnostic may decide a check;
resolving a bag resolves each diagnostic that was in it when the walk began.
Each of these takes as `run` the way in which nested steps are performed.

Key definitions: `Session.force`, `Session.pursueCheck`,
`Session.resolve?`, `Session.collect`, `Session.recordReference`.
-/
import Deferral.Session.World
import Deferral.Pursuit

namespace Deferral
namespace Session

variable (p : Program) (run : Runner)

/-! ### Completion -/

/-- One run of a binder, after it was started: its steps, and then its failure if it has one. -/
def runBinder (at_ : Scope) (e : Nat) (binder : Binder) : Act Unit := do
  run (at_.inside s!"e{e}") binder.steps
  if ((← get).bindings e).starts ≤ binder.failures then
    throw (.failure (.binderFailed e))

/-- Starts the binder, and stores what it returns or undoes the start. -/
def complete (at_ : Scope) (e : Nat) (binder : Binder) : Act Unit := do
  modify fun w => w.updateBinding e (·.start at_.thread)
  try runBinder run at_ e binder
  catch x =>
    modify fun w => w.updateBinding e (·.abandon)
    throw x
  modify fun w => w.updateBinding e (·.finish (p.entity e).attributes)

/-- Demands that the entity at a position be completed. -/
def force (at_ : Scope) (e : Nat) : Act Unit := do
  modify fun w => { w with demands := e :: w.demands }
  match (p.entity e).behaviour with
  | .source _ _ binder =>
    match ((← get).bindings e).demand at_.thread with
    | .done => pure ()
    | .reentrant => emit at_ ⟨.event, "re-entrant attribute completion, leaving incomplete", []⟩
    | .wait => throw .blocked
    | .start => complete p run at_ e binder
  | .stub _ _ => pure ()
  | .bare _ => pure ()

/-! ### Checks -/

/-- The trace entry for a notice of the forcing loop. -/
def noticeEntry (name : String) : Notice → TraceEntry
  | .forcing round c =>
    ⟨.event, "forcing attribute completion",
      [("entity", .text name), ("round", .number round), ("classification", .text c.name)]⟩
  | .undecided c =>
    ⟨.event, "completion in progress on this thread, leaving unsettled",
      [("entity", .text name), ("classification", .text c.name)]⟩

/-- The entities of the program, as the forcing loop sees them. -/
def host (at_ : Scope) (name : String) : Host Act Nat where
  view := return (← get).view p at_.thread
  force := force p run at_
  announce n := emit at_ (noticeEntry name n)

/-- Pursues the decision of a check, forcing what it needs. It is undecided where this thread is
completing what it needs, and fails where a host keeps its entities unfinished. -/
def pursueCheck (at_ : Scope) (rule : CheckRule) (candidate : Nat) (ctx : Context) (o : Options) :
    Act (Option (Decision × Nat)) := do
  let name := (p.entity candidate).name
  let s ← pursue (host p run at_ name) (rule.standing o) (p.reference candidate ctx)
  match s.ending with
  | .decided t => return some (t, s.rounds)
  | .undecided => return none
  | .stalled c => throw (.failure (.noProgress name c))

/-- The diagnostic for a reference to a deprecated entity, from what is visible now. -/
def diagnose (w : World) (candidate : Nat) (ctx : Context) (o : Options) : Diagnostic :=
  deprecationReport o (p.entity candidate).named (w.visible p candidate).deprecation
    ctx.flags ctx.site

/-- Decides a deprecation check, in a span of its own. -/
def decideDeprecation (at_ : Scope) (candidate : Nat) (ctx : Context) (o : Options) :
    Act (Option Finding) :=
  let e := p.entity candidate
  let span := "lazy_diag.resolve_deprecation"
  inSpan at_ span [("entity", .text e.name), ("id", .number e.id)] do
    match ← pursueCheck p run at_ .deprecation candidate ctx o with
    | none => return none
    | some (t, rounds) =>
      emit at_ ⟨.record, span, [("rounds", .number rounds)]⟩
      match t with
      | .reportable => return some (.report (diagnose p (← get) candidate ctx o))
      | .inapplicable => return some .void

/-- Decides an experimental check, in a span of its own. -/
def decideExperimental (at_ : Scope) (candidate : Nat) (ctx : Context) (o : Options) :
    Act (Option Finding) :=
  let e := p.entity candidate
  inSpan at_ "lazy_diag.resolve_experimental" [("entity", .text e.name)] do
    match ← pursueCheck p run at_ .experimental candidate ctx o with
    | none => return none
    | some (.reportable, _) =>
      return some (.report (experimentalReport e.named ctx.flags ctx.site))
    | some (.inapplicable, _) => return some .void

/-! ### Computations -/

/-- The result of a plan on its call number `call`, once it is past its failures and its undecided
calls. -/
def Plan.finding (plan : Plan) (call : Nat) : Finding :=
  match plan.results[call - plan.undecided]? with
  | some f => f
  | none => plan.results.getLast?.getD .void

/-- What a computation finds on its call number `call`, unless it stays undecided. -/
def compute (at_ : Scope) (call : Nat) : Computation → Act (Option Finding)
  | .check .deprecation candidate ctx o => decideDeprecation p run at_ candidate ctx o
  | .check .experimental candidate ctx o => decideExperimental p run at_ candidate ctx o
  | .constant f => return some f
  | .scripted name plan during => do
    if plan.performing.all fun limit => decide (call < limit) then
      run (at_.inside name) during
    if call < plan.failures then throw (.failure .computationFailed)
    else if call < plan.undecided then return none
    else return some (plan.finding call)

/-! ### Diagnostics -/

/-- An object for a finding. -/
def objectFor (f : Finding) : Act (Shared Finding) :=
  modifyGet fun w =>
    let (o, key) := objectAt w.nextKey f
    (o, { w with nextKey := key })

/-- Memoizes a result of a diagnostic unless one is memoized, and answers the memoized one and
whether it is this one. -/
def memoize (cell : Nat) (o : Shared Finding) : Act (Shared Finding × Bool) := do
  match (← get).cells[cell]? with
  | some (.deferred c slot calls) =>
    modify fun w => w.setCell cell (.deferred c (slot.offer o).2 calls)
    return (slot.offer o).1
  | some (.known held) => return (held, false)
  | none => return (o, true)

/-- The memoized result of a diagnostic. Where there is none yet it is computed, and the first
result to arrive is memoized; an undecided computation leaves none. -/
def resolve? (at_ : Scope) (cell : Nat) : Act (Option (Shared Finding)) := do
  match (← get).cells[cell]? with
  | none => return none
  | some (.known o) => return some o
  | some (.deferred c slot calls) =>
    match slot.stored with
    | some o => return some o
    | none =>
      modify fun w => w.setCell cell (.deferred c slot (calls + 1))
      match ← compute p run at_ calls c with
      | none =>
        emit at_ ⟨.event, "diagnostic undecided on this thread, not memoizing", []⟩
        return none
      | some f =>
        let (held, won) ← memoize cell (← objectFor f)
        if !won then
          emit at_ ⟨.event, "diagnostic resolved concurrently, discarding local result", []⟩
        return some held

/-- Like `resolve?`, but what is undecided counts as nothing to report, for this call alone. -/
def resolveOrVoid (at_ : Scope) (cell : Nat) : Act (Shared Finding) := do
  return (← resolve? p run at_ cell).getD voidObject

/-! ### Bags -/

/-- Resolves diagnostics in order, and answers those to be reported. -/
def resolveEach (at_ : Scope) : List Nat → Act (List Diagnostic)
  | [] => return []
  | cell :: cells => do
    let o ← resolve? p run at_ cell
    let rest ← resolveEach at_ cells
    match o.bind (·.value.diagnostic?) with
    | some d => return d :: rest
    | none => return rest

/-- Resolves what is in a bag now, and answers what is to be reported, in the order of a report.
What is undecided stays pending, and what is pushed meanwhile is left for later. -/
def collect (at_ : Scope) (bag : String) : Act (List Diagnostic) := do
  return Diagnostic.inReportOrder (← resolveEach p run at_ ((← get).bags bag))

/-- Makes a diagnostic, and answers its number. -/
def create (c : Cell) : Act Nat := do
  let cell := (← get).cells.length
  modify fun w => w.addCell c
  return cell

/-- Makes a diagnostic that is known from the beginning. -/
def createKnown (d : Diagnostic) : Act Nat := do create (.known (← objectFor (.report d)))

/-- Makes a diagnostic that is computed on demand. -/
def createDeferred (c : Computation) : Act Nat := create (.deferred c .empty 0)

/-- Records a reference to an entity: nothing, the diagnostic itself, or a check to be decided
later under the same options, as the reference stands now. -/
def recordReference (at_ : Scope) (candidate : Nat) (ctx : Context) (o : Options) (bag : String) :
    Act Unit := do
  let w ← get
  match deprecationStanding o (w.view p at_.thread) (p.reference candidate ctx) with
  | .inapplicable => return
  | .reportable =>
    let cell ← createKnown (diagnose p w candidate ctx o)
    modify fun w => w.pushCell bag cell
  | .pendingCompletion | .pendingAmbiguous =>
    let cell ← createDeferred (.check .deprecation candidate ctx o)
    modify fun w => w.pushCell bag cell

end Session
end Deferral
