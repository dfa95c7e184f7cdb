/-
# Worlds

What a session changes as it runs: how far each entity is completed, the
diagnostics made so far with what is memoized for them, the bags, and the
log. A diagnostic is known from the beginning or computed on demand, and what
its computation finds is offered to a slot that is written once. Every finding
that there is nothing to report is one and the same object.

Key definitions: `Session.Cell`, `Session.World`, `Session.Entry`,
`Session.Course`, `Session.Act`.
-/
import Deferral.Completion
import Deferral.WriteOnce
import Deferral.Session.Program
import Deferral.Trace

namespace Deferral
namespace Session

/-- What a diagnostic computes on demand. -/
inductive Computation where
  | check (rule : CheckRule) (candidate : Nat) (ctx : Context) (options : Options)
  | constant (finding : Finding)
  | scripted (name : String) (plan : Plan) (during : List Step)

/-- A diagnostic: known, or computed on demand and memoized. The calls of a computation are
counted. -/
inductive Cell where
  | known (finding : Shared Finding)
  | deferred (computation : Computation) (result : WriteOnce Finding) (calls : Nat)

namespace Cell

/-- What the diagnostic is known to be. -/
def result? : Cell → Option (Shared Finding)
  | known o => some o
  | deferred _ slot _ => slot.stored

/-- The diagnostic need not be computed any more. -/
def isResolved (c : Cell) : Bool := c.result?.isSome

/-- The memoized result. A diagnostic that was always known has none. -/
def memoized? : Cell → Option (Shared Finding)
  | known _ => none
  | deferred _ slot _ => slot.stored

end Cell

/-- The object that stands for nothing to report. -/
def voidObject : Shared Finding := ⟨0, .void⟩

/-- An object for a finding, and the next free key, where `key` is free: a new object, or the one
object for nothing to report. -/
def objectAt (key : Nat) : Finding → Shared Finding × Nat
  | .void => (voidObject, key)
  | .report d => (⟨key, .report d⟩, key + 1)

/-! ### Answers and the log -/

/-- Why a step fails. -/
inductive Failure where
  /-- The binder of the entity at this position fails. -/
  | binderFailed (position : Nat)
  | computationFailed
  /-- Forcing completed nothing, and nobody here is completing what the reference needs. -/
  | noProgress (name : String) (c : Standing)
deriving DecidableEq

/-- The wording of a failure. -/
def Failure.message : Failure → String
  | .binderFailed position => s!"binder of e{position} failed"
  | .computationFailed => "computation failed"
  | .noProgress name c =>
    "internal error: forcing attribute completion for `" ++ name ++ "` made no progress (" ++
      c.name ++ ")"

/-- What can be seen of one entity. -/
structure EntityReport where
  named : Named
  finished : Bool
  completingHere : Bool
  deprecation : Option Deprecation
  experimental : Bool
  /-- The identifier of its container. -/
  container : Option Nat
  /-- The demands to complete it, where they are counted. -/
  forced : Option Nat
  /-- The runs of its binder, where they are counted. -/
  starts : Option Nat

mutual

/-- The answer of a step. -/
inductive Answer where
  | nothing
  | truth (b : Bool)
  | text (s : String)
  | entity (report : EntityReport)
  | ids (ids : List Nat)
  | context (ctx : Context) (containers : List Nat)
  | standing (c : Standing)
  | decided (t : Decision) (rounds : Nat)
  | diagnostic (d : Diagnostic)
  | valid
  | emptyRule (index : Nat)
  | finding (o : Shared Finding)
  | bagSize (size pending : Nat)
  | bag (size pending : Nat)
  | reported (diagnostics : List Diagnostic) (pending : Nat)
  | race (same : Bool) (first : Shared Finding)
  | raceCompute (calls : Nat) (same : Bool) (kept : Shared Finding)
  | failed (f : Failure)
  | thread (log : List Entry)

/-- An entry of a log: the answer of a step that has ended, with what it is nested in, outermost
first; or an entry of the trace. -/
inductive Entry where
  | step (name : String) (within : List String) (answer : Answer)
  | trace (t : TraceEntry)

end

/-! ### The state of a session -/

/-- A thread that was started and is not joined yet. -/
inductive Launched where
  /-- It has performed its steps, and this is its answer. -/
  | ended (answer : Answer)
  /-- It has its steps before it. -/
  | held (steps : List Step)

/-- The thread that a session begins on. -/
def mainThread : Thread := 1

/-- The state of a session. -/
structure World where
  /-- How far the entity at each position is completed. -/
  bindings : Nat → Binding
  /-- The positions at which completion was demanded, latest first. -/
  demands : List Nat
  /-- The diagnostics made so far. -/
  cells : List Cell
  /-- The names of diagnostics, latest first. -/
  names : List (String × Nat)
  /-- The entries of each bag, in the order of their pushes. -/
  bags : String → List Nat
  /-- The key of the next object. -/
  nextKey : Nat
  /-- The threads that were started and not joined, latest first. -/
  launched : List (String × Launched)
  nextThread : Thread
  /-- The log of the running thread, latest entry first. -/
  log : List Entry

namespace World

/-- The world in which a session begins. -/
def initial (p : Program) : World where
  bindings e :=
    match (p.entity e).behaviour with
    | .source _ true _ => .completed (p.entity e).attributes
    | _ => .fresh
  demands := []
  cells := []
  names := []
  bags _ := []
  nextKey := 1
  launched := []
  nextThread := mainThread + 1
  log := []

/-- Changes the binding at one position. -/
def updateBinding (w : World) (position : Nat) (f : Binding → Binding) : World :=
  { w with bindings := fun e => if e = position then f (w.bindings e) else w.bindings e }

/-- Adds a diagnostic at the end of a bag. -/
def pushCell (w : World) (bag : String) (cell : Nat) : World :=
  { w with bags := fun b => if b = bag then w.bags b ++ [cell] else w.bags b }

/-- Makes a diagnostic; its number is the number of those made before. -/
def addCell (w : World) (c : Cell) : World := { w with cells := w.cells ++ [c] }

/-- Gives a diagnostic a name. -/
def addName (w : World) (name : String) (cell : Nat) : World :=
  { w with names := (name, cell) :: w.names }

/-- Replaces a diagnostic. -/
def setCell (w : World) (cell : Nat) (c : Cell) : World := { w with cells := w.cells.set cell c }

/-- Adds an entry to the log. -/
def note (w : World) (e : Entry) : World := { w with log := e :: w.log }

/-- The diagnostic is resolved. -/
def isResolved (w : World) (cell : Nat) : Bool :=
  match w.cells[cell]? with
  | some c => c.isResolved
  | none => false

/-- The entries of a bag that are not resolved. -/
def pending (w : World) (bag : String) : Nat := (w.bags bag).countP fun c => !w.isResolved c

/-- The entity at a position is finished. -/
def finished (w : World) (p : Program) (e : Nat) : Bool :=
  match (p.entity e).behaviour with
  | .source _ _ _ => (w.bindings e).isFinished
  | .stub needs _ => decide (0 < needs) && decide (needs ≤ w.demands.count e)
  | .bare finished => finished

/-- The attributes that can be seen of the entity at a position. -/
def visible (w : World) (p : Program) (e : Nat) : Attributes :=
  match (p.entity e).behaviour with
  | .source _ _ _ => (w.bindings e).completion.data?.getD .plain
  | .stub _ _ => if w.finished p e then ⟨(p.entity e).attributes.deprecation, false⟩ else .plain
  | .bare _ => ⟨(p.entity e).attributes.deprecation, false⟩

/-- The thread `me` is completing the entity at a position. -/
def completingOn (w : World) (p : Program) (me : Thread) (e : Nat) : Bool :=
  match (p.entity e).behaviour with
  | .source _ _ _ => (w.bindings e).isInProgressOn me
  | .stub _ claimsHere => claimsHere && !w.finished p e
  | .bare _ => false

/-- What the thread `me` sees. -/
def view (w : World) (p : Program) (me : Thread) : View Nat where
  finished := w.finished p
  completingHere := w.completingOn p me
  deprecation e := (w.visible p e).deprecation
  experimental e := (w.visible p e).experimental

end World

/-! ### Actions on the state -/

/-- Why a run breaks off. -/
inductive Interruption where
  | failure (f : Failure)
  /-- It waits for a thread that waits for it. -/
  | blocked
  /-- Steps are nested deeper than allowed. -/
  | tooDeep
  /-- It names a diagnostic or a thread that does not exist. -/
  | unknownName (name : String)
deriving DecidableEq

/-- How far a run has come: the world now, and the worlds it has passed through, latest first. -/
structure Course where
  now : World
  before : List World

namespace Course

/-- The worlds of a course, the one now first. -/
def worlds (c : Course) : List World := c.now :: c.before

/-- The course that goes on to the world `w`. -/
def goOn (c : Course) (w : World) : Course := ⟨w, c.worlds⟩

end Course

/-- An action on the world. What it changed before it broke off stays changed, and each change is a
step of the course. -/
def Act (α : Type) : Type := Course → EStateM.Result Interruption Course α

namespace Act

instance : Monad Act where
  pure a := fun c => .ok a c
  bind act f := fun c =>
    match act c with
    | .ok a c' => f a c'
    | .error x c' => .error x c'

instance : MonadExceptOf Interruption Act where
  throw x := fun c => .error x c
  tryCatch act handle := fun c =>
    match act c with
    | .ok a c' => .ok a c'
    | .error x c' => handle x c'

instance : MonadStateOf World Act where
  get := fun c => .ok c.now c
  set w := fun c => .ok ⟨⟩ (c.goOn w)
  modifyGet f := fun c => .ok (f c.now).1 (c.goOn (f c.now).2)

end Act

/-- Performs the action, unless it would have to wait for another thread: then nothing has been
done. -/
def unlessWaiting {α : Type} (body : Act α) : Act (Option α) := fun c =>
  match body c with
  | .ok a c' => .ok (some a) c'
  | .error .blocked _ => .ok none c
  | .error x c' => .error x c'

/-- Where steps run: the thread, and the binders and computations they are nested in, outermost
first. -/
structure Scope where
  thread : Thread
  within : List String

/-- The scope one level further in. -/
def Scope.inside (at_ : Scope) (name : String) : Scope :=
  { at_ with within := at_.within ++ [name] }

/-- Performs nested steps. -/
abbrev Runner := Scope → List Step → Act Unit

/-- Adds an entry to the trace, which covers the main thread alone. -/
def emit (at_ : Scope) (t : TraceEntry) : Act Unit :=
  if at_.thread = mainThread then modify fun w => w.note (.trace t) else pure ()

/-- Runs an action inside a span, which is left however the action ends. -/
def inSpan {α : Type} (at_ : Scope) (name : String) (fields : List (String × FieldValue))
    (body : Act α) : Act α := do
  emit at_ ⟨.span, name, fields⟩
  let result ←
    try body
    catch x =>
      emit at_ ⟨.exit, name, []⟩
      throw x
  emit at_ ⟨.exit, name, []⟩
  return result

/-- Runs an action on a new thread, and answers its result and its log. -/
def onThread {α : Type} (body : Scope → Act α) : Act (α × List Entry) := do
  let outer := (← get).log
  let thread := (← get).nextThread
  modify fun w => { w with log := [], nextThread := thread + 1 }
  let result ←
    try body ⟨thread, []⟩
    catch x =>
      modify fun w => { w with log := outer }
      throw x
  let inner := (← get).log
  modify fun w => { w with log := outer }
  return (result, inner.reverse)

end Session
end Deferral
