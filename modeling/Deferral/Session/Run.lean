/-
# Running a session

Each step logs its answer when it ends, so what is nested in a step is logged
before it. A failure ends at the innermost guarded step, whose answer it
becomes, or else with the thread that it happens on. Steps are nested in
binders, in scripted computations and in threads, to a depth that is bounded
by an allowance.

Threads do not take turns here. A thread that is joined later performs its
steps in one go, either where it is launched or where it is joined; both are
orders in which the threads may get on. What a thread does when it has to
wait for another one in the middle of its steps is not part of a session.

Key definitions: `Session.answer`, `Session.perform`, `Session.performAll`,
`Session.Program.run`.
-/
import Deferral.Session.Describe
import Deferral.Session.Resolve

namespace Deferral
namespace Session

section

variable (p : Program) (run : Runner)

/-! ### Answers -/

/-- The number of the diagnostic with this name. -/
def findCell (diag : String) : Act Nat := do
  match (← get).names.lookup diag with
  | some cell => return cell
  | none => throw (.unknownName diag)

/-- Makes a diagnostic and gives it a name. -/
def createNamed (diag : String) (make : Act Nat) : Act Answer := do
  let cell ← make
  modify fun w => w.addName diag cell
  return .nothing

/-- A finding as an answer. -/
def Answer.ofFinding? : Option (Shared Finding) → Answer
  | some o => .finding o
  | none => .nothing

/-- What can be seen of the entity at a position. -/
def entityReport (me : Thread) (w : World) (e : Nat) : EntityReport :=
  let entity := p.entity e
  { named := entity.named
    finished := w.finished p e
    completingHere := w.completingOn p me e
    deprecation := (w.visible p e).deprecation
    experimental := (w.visible p e).experimental
    container := entity.container.map fun c => (p.entity c).id
    forced :=
      match entity.behaviour with
      | .source true _ _ | .stub _ _ => some (w.demands.count e)
      | _ => none
    starts :=
      match entity.behaviour with
      | .source true _ _ => some (w.bindings e).starts
      | _ => none }

/-- The identifiers of the entities at some positions. -/
def ids (positions : List Nat) : List Nat := positions.map fun e => (p.entity e).id

/-- The size of a bag and the number of its entries that are pending, as an answer. -/
def bagSize (bag : String) : Act Answer := do
  let w ← get
  return .bagSize (w.bags bag).length (w.pending bag)

/-- The result that each of `n` new threads gets for a diagnostic. -/
def resolveOnThreads (cell : Nat) : Nat → Act (List (Shared Finding))
  | 0 => return []
  | n + 1 => do
    let (o, _) ← onThread fun at_ => resolveOrVoid p run at_ cell
    return o :: (← resolveOnThreads cell n)

/-- What each of `n` computations that have all found `f` gets from a slot when they offer it,
one after the other. -/
def offerEach (f : Finding) : Nat → WriteOnce Finding → Act (List (Shared Finding))
  | 0, _ => return []
  | n + 1, slot => do
    let o ← objectFor f
    return (slot.offer o).1.1 :: (← offerEach f n (slot.offer o).2)

/-- The first of several results, and whether all are the same object. -/
def agreement (results : List (Shared Finding)) : Bool × Shared Finding :=
  let first := results.headD voidObject
  (results.all fun o => o.key == first.key, first)

/-- Turns a failure into an answer. -/
def guarded (act : Act Answer) : Act Answer :=
  tryCatch act fun
    | .failure f => pure (.failed f)
    | x => throw x

/-- Runs steps on a new thread, and answers its log. A failure that no step of the thread catches
ends the thread, and is its answer. -/
def threadLog (steps : List Step) : Act Answer :=
  guarded do
    let (_, log) ← onThread fun at_ => run at_ steps
    return .thread log

/-- How far a new thread gets at once: to the end of its steps, unless it would have to wait. -/
def startThread (steps : List Step) : Act Launched := do
  match ← unlessWaiting (threadLog run steps) with
  | some a => return .ended a
  | none => return .held steps

/-- Performs an action and gives its answer. -/
def answer (at_ : Scope) : Action → Act Answer
  | .state e => return .entity (entityReport p at_.thread (← get) e)
  | .force e => do
    force p run at_ e
    return .truth ((← get).finished p e)
  | .chain e => return .ids (ids p (p.chain e))
  | .context ctx => return .context ctx (ids p (p.chain ctx.containing))
  | .standing rule e ctx o =>
    return .standing (rule.standing o ((← get).view p at_.thread) (p.reference e ctx))
  | .pursue rule e ctx o => do
    match ← pursueCheck p run at_ rule e ctx o with
    | some (t, rounds) => return .decided t rounds
    | none => return .nothing
  | .diagnose e ctx o => return .diagnostic (diagnose p (← get) e ctx o)
  | .validate o =>
    match o.firstEmptyRule? with
    | some index => return .emptyRule index
    | none => return .valid
  | .check diag rule e ctx o => createNamed diag (createDeferred (.check rule e ctx o))
  | .constant diag f => createNamed diag (createDeferred (.constant f))
  | .known diag d => createNamed diag (createKnown d)
  | .scripted diag plan during => createNamed diag (createDeferred (.scripted diag plan during))
  | .resolveOrVoid diag => return .finding (← resolveOrVoid p run at_ (← findCell diag))
  | .resolve diag => return .ofFinding? (← resolve? p run at_ (← findCell diag))
  | .peek diag => do
    let cell ← findCell diag
    return .ofFinding? ((← get).cells[cell]?.bind (·.memoized?))
  | .isResolved diag => do
    let cell ← findCell diag
    return .truth ((← get).isResolved cell)
  | .recordReference e ctx o bag => do
    recordReference p at_ e ctx o bag
    bagSize bag
  | .pushKnown d bag => do
    let cell ← createKnown d
    modify fun w => w.pushCell bag cell
    bagSize bag
  | .push diag bag => do
    let cell ← findCell diag
    modify fun w => w.pushCell bag cell
    bagSize bag
  | .bag bag => do
    let w ← get
    return .bag (w.bags bag).length (w.pending bag)
  | .collect bag => do
    let diagnostics ← collect p run at_ bag
    return .reported diagnostics ((← get).pending bag)
  | .describe e => return .text (Text.hideThreads (describeEntity p (← get) e))
  | .describeDiagnostic diag => do
    let cell ← findCell diag
    let w ← get
    match w.cells[cell]? with
    | some c => return .text (describeCell p w c)
    | none => throw (.unknownName diag)
  | .race diag n => do
    let (same, first) := agreement (← resolveOnThreads p run (← findCell diag) n)
    return .race same first
  | .raceCompute n f => do
    let (same, first) := agreement (← offerEach f n .empty)
    return .raceCompute n same first
  | .spawn steps => threadLog run steps
  | .launch thread late steps => do
    let progress ← if late then pure (.held steps) else startThread run steps
    modify fun w => { w with launched := (thread, progress) :: w.launched }
    return .nothing
  | .join thread => do
    match (← get).launched.lookup thread with
    | some (.ended a) => return a
    | some (.held steps) => threadLog run steps
    | none => throw (.unknownName thread)

/-! ### Steps -/

/-- Performs a step and logs its answer. -/
def perform (at_ : Scope) (s : Step) : Act Unit := do
  let a ←
    match s with
    | .guarded action => guarded (answer p run at_ action)
    | .uncaught action => answer p run at_ action
  modify fun w => w.note (.step s.action.name at_.within a)

/-- Performs steps in order. -/
def performEach (at_ : Scope) : List Step → Act Unit
  | [] => return
  | s :: steps => do
    perform p run at_ s
    performEach at_ steps

end

/-- Performs steps, nested at most `depth` deep. -/
def performAll (p : Program) : Nat → Runner
  | 0, _, _ => throw .tooDeep
  | depth + 1, at_, steps => performEach p (performAll p depth) at_ steps

/-! ### The allowance -/

mutual

/-- The actions that an action gives, itself first. -/
def Action.given : Action → List Action
  | .scripted diag plan during => .scripted diag plan during :: givenBy during
  | .spawn steps => .spawn steps :: givenBy steps
  | .launch thread late steps => .launch thread late steps :: givenBy steps
  | a => [a]

/-- The actions that a step gives. -/
def Step.given : Step → List Action
  | .guarded action => action.given
  | .uncaught action => action.given

/-- The actions that several steps give. -/
def givenBy : List Step → List Action
  | [] => []
  | s :: steps => s.given ++ givenBy steps

end

/-- The number of calls of a computation behind which all its calls are alike. -/
def Action.varyingCalls : Action → Nat
  | .scripted _ plan _ => plan.performing.getD 0 + plan.failures + plan.undecided
  | _ => 0

/-- The number of demands behind which all demands to complete an entity are alike. -/
def Entity.varyingCalls (e : Entity) : Nat :=
  match e.behaviour with
  | .source _ _ binder => binder.failures
  | .stub needs _ => needs
  | .bare _ => 0

/-- The steps of the binder of an entity. -/
def Entity.steps (e : Entity) : List Step :=
  match e.behaviour with
  | .source _ _ binder => binder.steps
  | .stub _ _ => []
  | .bare _ => []

/-- How deep the steps of a session may nest. There are fewer states than this of the entities and
of what has a name, so steps that nest deeper come back to the step and the state that they are
nested in, and do not end. What is in bags is not counted. -/
def Program.allowance (p : Program) (steps : List Step) : Nat :=
  let actions := givenBy (p.entities.flatMap Entity.steps) ++ givenBy steps
  let size := p.entities.length + actions.length
  let calls := (actions.map Action.varyingCalls ++ p.entities.map Entity.varyingCalls).foldl
    (fun n calls => n + calls) 0
  Nat.pow (size + calls + 4) (3 * size + 4)

/-- The course of a session whose steps nest at most `depth` deep, and whether it breaks off. -/
def Program.session (p : Program) (depth : Nat) (steps : List Step) :
    EStateM.Result Interruption Course Unit :=
  performAll p depth ⟨mainThread, []⟩ steps ⟨World.initial p, []⟩

/-- The log of a session, unless it breaks off: a failure that no step catches ends it. -/
def Program.run (p : Program) (steps : List Step) : Except Interruption (List Entry) :=
  match p.session (p.allowance steps) steps with
  | .ok _ c => .ok c.now.log.reverse
  | .error x _ => .error x

end Session
end Deferral
