/-
# What is kept by putting actions together

Much of what is true of a session is true because it is true of the smallest actions, and kept by
every way in which actions are put together. Here this is said once, of a relation between two
actions: the same action with its nested steps performed in two different ways. A property of one
action is the case where both ways are the same.

The forcing loop asks least of the relation, and there even the programs may differ. The other
functions of a session ask in addition that forcing an entity and resolving a diagnostic are
related, and every action that nothing else is then needed for is related.

Key definitions: `Session.Program.Alike`, `Session.Pursuing`, `Session.Congruence`.
Key theorems: `Session.Pursuing.pursueCheck`, `Session.Congruence.performEach`.
-/
import Deferral.Proofs.Conduct

namespace Deferral
namespace Session

/-! ### The chain of containers -/

section

variable {p p' : Program}

theorem Program.chainWithin_congr
    (h : ∀ e, (p'.entity e).container = (p.entity e).container) :
    ∀ n e, p'.chainWithin n e = p.chainWithin n e
  | 0, _ => rfl
  | n + 1, e => by
    unfold Program.chainWithin
    rw [h e]
    cases (p.entity e).container with
    | none => rfl
    | some c =>
      have ih := chainWithin_congr h n c
      simp only [ih]

/-- A reference is the same in programs whose entities have the same containers. -/
theorem Program.reference_congr (hlength : p'.entities.length = p.entities.length)
    (h : ∀ e, (p'.entity e).container = (p.entity e).container) (candidate : Nat)
    (ctx : Context) : p'.reference candidate ctx = p.reference candidate ctx := by
  have hchain : p'.chain ctx.containing = p.chain ctx.containing := by
    unfold Program.chain
    split
    · rw [hlength, chainWithin_congr h]
    · rfl
  unfold Program.reference
  rw [hchain]

end

/-! ### Programs that differ in binders -/

/-- The behaviours differ at most in binders. -/
def Behaviour.Alike : Behaviour → Behaviour → Prop
  | .source wrapped completed _, b => ∃ binder, b = .source wrapped completed binder
  | .stub needs here, b => b = .stub needs here
  | .bare finished, b => b = .bare finished

/-- The programs differ at most in binders. -/
structure Program.Alike (p p' : Program) : Prop where
  length : p'.entities.length = p.entities.length
  named : ∀ e, (p'.entity e).named = (p.entity e).named
  container : ∀ e, (p'.entity e).container = (p.entity e).container
  attributes : ∀ e, (p'.entity e).attributes = (p.entity e).attributes
  behaviour : ∀ e, (p.entity e).behaviour.Alike (p'.entity e).behaviour

theorem Behaviour.Alike.refl : ∀ b : Behaviour, b.Alike b
  | .source _ _ binder => ⟨binder, rfl⟩
  | .stub _ _ => rfl
  | .bare _ => rfl

namespace Program.Alike

variable {p p' : Program}

theorem refl (p : Program) : p.Alike p :=
  ⟨rfl, fun _ => rfl, fun _ => rfl, fun _ => rfl, fun _ => .refl _⟩

theorem name (h : p.Alike p') (e : Nat) : (p'.entity e).name = (p.entity e).name :=
  congrArg Named.name (h.named e)

theorem kind (h : p.Alike p') (e : Nat) : (p'.entity e).kind = (p.entity e).kind :=
  congrArg Named.kind (h.named e)

theorem id (h : p.Alike p') (e : Nat) : (p'.entity e).id = (p.entity e).id :=
  congrArg Named.id (h.named e)

theorem reference (h : p.Alike p') (candidate : Nat) (ctx : Context) :
    p'.reference candidate ctx = p.reference candidate ctx :=
  Program.reference_congr h.length h.container candidate ctx

theorem finished (h : p.Alike p') (w : World) (e : Nat) : w.finished p' e = w.finished p e := by
  have hb := h.behaviour e
  unfold World.finished
  cases hbeh : (p.entity e).behaviour with
  | source wrapped completed binder =>
    rw [hbeh] at hb
    obtain ⟨binder', hb⟩ := hb
    rw [hb]
  | stub needs here =>
    rw [hbeh] at hb
    rw [hb]
  | bare finished =>
    rw [hbeh] at hb
    rw [hb]

theorem visible (h : p.Alike p') (w : World) (e : Nat) : w.visible p' e = w.visible p e := by
  have hb := h.behaviour e
  unfold World.visible
  rw [h.attributes, h.finished]
  cases hbeh : (p.entity e).behaviour with
  | source wrapped completed binder =>
    rw [hbeh] at hb
    obtain ⟨binder', hb⟩ := hb
    rw [hb]
  | stub needs here =>
    rw [hbeh] at hb
    rw [hb]
  | bare finished =>
    rw [hbeh] at hb
    rw [hb]

theorem completingOn (h : p.Alike p') (w : World) (t : Thread) (e : Nat) :
    w.completingOn p' t e = w.completingOn p t e := by
  have hb := h.behaviour e
  unfold World.completingOn
  rw [h.finished]
  cases hbeh : (p.entity e).behaviour with
  | source wrapped completed binder =>
    rw [hbeh] at hb
    obtain ⟨binder', hb⟩ := hb
    rw [hb]
  | stub needs here =>
    rw [hbeh] at hb
    rw [hb]
  | bare finished =>
    rw [hbeh] at hb
    rw [hb]

theorem view (h : p.Alike p') (w : World) (t : Thread) : w.view p' t = w.view p t := by
  have hf : w.finished p' = w.finished p := funext (h.finished w)
  have hc : w.completingOn p' t = w.completingOn p t := funext (h.completingOn w t)
  simp only [World.view, hf, hc, h.visible w]

theorem final (h : p.Alike p') (e : Nat) : p'.final e = p.final e := by
  have hb := h.behaviour e
  unfold Program.final
  rw [h.attributes]
  cases hbeh : (p.entity e).behaviour with
  | source wrapped completed binder =>
    rw [hbeh] at hb
    obtain ⟨binder', hb⟩ := hb
    rw [hb]
  | stub needs here =>
    rw [hbeh] at hb
    rw [hb]
  | bare finished =>
    rw [hbeh] at hb
    rw [hb]

/-- A check comes to the same in both programs. -/
theorem finds (h : p.Alike p') {rule : CheckRule} {candidate : Nat} {ctx : Context}
    {opts : Options} {f : Finding} :
    p'.Finds rule candidate ctx opts f ↔ p.Finds rule candidate ctx opts f := by
  have hfinal : p'.final = p.final := funext h.final
  have hreport : p'.report candidate ctx opts rule = p.report candidate ctx opts rule := by
    unfold Program.report
    cases rule with
    | deprecation => rw [h.named, h.final]
    | experimental => simp only [h.name, h.kind, h.id]
  unfold Program.Finds
  rw [hfinal, h.reference, hreport]

theorem diagnose (h : p.Alike p') (w : World) (candidate : Nat) (ctx : Context) (opts : Options) :
    diagnose p' w candidate ctx opts = diagnose p w candidate ctx opts := by
  simp only [Session.diagnose, h.named, h.visible w]

end Program.Alike

/-! ### Spans -/

section

variable {at_ : Scope} {α : Type} {x : Act α} {name : String} {c c₁ c₂ c₃ : Course}
variable {fields : List (String × FieldValue)}

/-- A trace entry adds to the log, or is none of this thread's business. -/
theorem emit_cases (at_ : Scope) (e : TraceEntry) (c : Course) :
    emit at_ e c = .ok ⟨⟩ c ∨ ∃ log, emit at_ e c = .ok ⟨⟩ (c.goOn { c.now with log }) := by
  unfold emit
  split
  · exact .inr ⟨_, rfl⟩
  · exact .inl rfl

theorem inSpan_of_ok {a : α} (h₁ : emit at_ ⟨.span, name, fields⟩ c = .ok ⟨⟩ c₁)
    (h₂ : x c₁ = .ok a c₂) (h₃ : emit at_ ⟨.exit, name, []⟩ c₂ = .ok ⟨⟩ c₃) :
    inSpan at_ name fields x c = .ok a c₃ := by
  unfold inSpan
  rw [Act.bind_of_ok h₁, Act.bind_of_ok (Act.tryCatch_of_ok h₂), Act.bind_of_ok h₃]
  rfl

theorem inSpan_of_error {e : Interruption} (h₁ : emit at_ ⟨.span, name, fields⟩ c = .ok ⟨⟩ c₁)
    (h₂ : x c₁ = .error e c₂) (h₃ : emit at_ ⟨.exit, name, []⟩ c₂ = .ok ⟨⟩ c₃) :
    inSpan at_ name fields x c = .error e c₃ := by
  unfold inSpan
  rw [Act.bind_of_ok h₁]
  exact Act.bind_of_error ((Act.tryCatch_of_error h₂).trans (Act.bind_of_ok h₃))

end

/-! ### The cases of a resolution -/

section

variable {p : Program} {run : Runner} {at_ : Scope} {c : Course} {cell calls : Nat}
variable {comp : Computation} {slot : WriteOnce Finding}

/-- What a resolution does with the outcome of the computation. -/
def keepFinding (at_ : Scope) (cell : Nat) : Option Finding → Act (Option (Shared Finding))
  | none => do
    emit at_ ⟨.event, "diagnostic undecided on this thread, not memoizing", []⟩
    return none
  | some f => do
    let (held, won) ← memoize cell (← objectFor f)
    if !won then
      emit at_ ⟨.event, "diagnostic resolved concurrently, discarding local result", []⟩
    return some held

/-- The course after a call of the computation has been counted. -/
def Course.counting (c : Course) (cell : Nat) (comp : Computation) (slot : WriteOnce Finding)
    (calls : Nat) : Course :=
  c.goOn (c.now.setCell cell (.deferred comp slot (calls + 1)))

theorem resolve?_of_result {d : Cell} {o : Shared Finding} (hc : c.now.cells[cell]? = some d)
    (hd : d.result? = some o) : resolve? p run at_ cell c = .ok (some o) c := by
  rw [resolve?, Act.get_bind, hc]
  cases d with
  | known held =>
    cases hd
    rfl
  | deferred comp slot calls =>
    have hst : slot.stored = some o := hd
    simp only [hst]
    rfl

theorem resolve?_of_none (hc : c.now.cells[cell]? = none) :
    resolve? p run at_ cell c = .ok none c := by
  rw [resolve?, Act.get_bind, hc]
  rfl

theorem resolve?_of_empty (hc : c.now.cells[cell]? = some (.deferred comp slot calls))
    (hst : slot.stored = none) :
    resolve? p run at_ cell c =
      (compute p run at_ calls comp >>= keepFinding at_ cell)
        (c.counting cell comp slot calls) := by
  rw [resolve?, Act.get_bind, hc]
  simp only [hst]
  rw [Act.modify_bind]
  refine congrFun (congrArg (compute p run at_ calls comp >>= ·) ?_) _
  funext o
  cases o with
  | none => rfl
  | some f => rfl

theorem memoize_ok (cell : Nat) (o : Shared Finding) (c : Course) :
    ∃ a c', memoize cell o c = .ok a c' := by
  rw [memoize, Act.get_bind]
  cases c.now.cells[cell]? with
  | none => exact ⟨_, _, rfl⟩
  | some d =>
    cases d with
    | known held => exact ⟨_, _, rfl⟩
    | deferred comp slot calls => exact ⟨_, _, rfl⟩

/-- A finding is kept by offering an object for it, which does not break off. -/
theorem keepFinding_of_offer {f : Finding} {r : Shared Finding × Bool} {c' : Course}
    (h : memoize cell (objectAt c.now.nextKey f).1 (c.making f) = .ok r c') :
    keepFinding at_ cell (some f) c = answerOffer at_ r c' := by
  rw [keepFinding, Act.bind_of_ok (objectFor_eq f c), Act.bind_of_ok h]
  rfl

theorem course_keepFinding_of_offer {f : Finding} {r : Shared Finding × Bool} {c' : Course}
    (h : memoize cell (objectAt c.now.nextKey f).1 (c.making f) = .ok r c') :
    (keepFinding at_ cell (some f)).course c = (answerOffer at_ r).course c' := by
  unfold Act.course
  rw [keepFinding_of_offer h]

/-- Once a computation has come to an end, its resolution does not break off any more. -/
theorem keepFinding_ok (at_ : Scope) (cell : Nat) (o : Option Finding) (c : Course) :
    ∃ a c', keepFinding at_ cell o c = .ok a c' := by
  cases o with
  | none =>
    obtain ⟨c', log, h, -⟩ := emit_runs at_
      ⟨.event, "diagnostic undecided on this thread, not memoizing", []⟩ c
    exact ⟨none, c', Act.bind_of_ok h⟩
  | some f =>
    obtain ⟨r, c', h⟩ := memoize_ok cell (objectAt c.now.nextKey f).1 (c.making f)
    obtain ⟨c'', log, h', -⟩ := answerOffer_runs at_ r c'
    exact ⟨_, c'', (keepFinding_of_offer h).trans h'⟩

/-- What a resolution answers once its computation has found something is what is memoized then. -/
theorem keepFinding_of_deferred {c' : Course} {f : Finding} {r : Option (Shared Finding)}
    (hc : c.now.cells[cell]? = some (.deferred comp slot calls))
    (h : keepFinding at_ cell (some f) c = .ok r c') :
    r = some (slot.offer (objectAt c.now.nextKey f).1).1.1 ∧
      c'.now.cells[cell]? =
        some (.deferred comp (slot.offer (objectAt c.now.nextKey f).1).2 calls) := by
  have hmemoize := memoize_of_deferred (c := c.making f) hc (objectAt c.now.nextKey f).1
  obtain ⟨hlt, -⟩ := List.getElem?_eq_some_iff.mp hc
  rw [keepFinding_of_offer hmemoize] at h
  obtain ⟨c₁, log, hanswer, hnow⟩ := answerOffer_runs at_ _ _
  cases hanswer.symm.trans h
  refine ⟨rfl, ?_⟩
  rw [hnow]
  exact List.getElem?_set_self hlt

end

/-! ### The forcing loop -/

/-- It is thrown in the open: not by a binder, by a wait or by the bound on nesting. -/
def Interruption.isOpen : Interruption → Bool
  | .failure (.binderFailed _) => false
  | .failure _ => true
  | .blocked => false
  | .tooDeep => false
  | .unknownName _ => true

/-- A relation between actions that the forcing loop keeps, if it is kept by forcing one entity. -/
structure Pursuing (p p' : Program) (run run' : Runner) (at_ : Scope) where
  Rel : {α : Type} → Act α → Act α → Prop
  alike : p.Alike p'
  pure_rel {α : Type} (a : α) : Rel (pure a) (pure a)
  throw_rel {α : Type} {x : Interruption} (h : x.isOpen = true) :
    Rel (throw x : Act α) (throw x)
  bind_rel {α β : Type} {x y : Act α} {f g : α → Act β} (h : Rel x y)
    (h' : ∀ a, Rel (f a) (g a)) : Rel (x >>= f) (y >>= g)
  emit_rel (e : TraceEntry) : Rel (emit at_ e) (emit at_ e)
  inSpan_rel {α : Type} {x y : Act α} (name : String) (fields : List (String × FieldValue))
    (h : Rel x y) : Rel (inSpan at_ name fields x) (inSpan at_ name fields y)
  view_rel : Rel (do return (← get).view p at_.thread) (do return (← get).view p' at_.thread)
  visible_rel (e : Nat) : Rel (do return (← get).visible p e) (do return (← get).visible p' e)
  force_rel (e : Nat) : Rel (force p run at_ e) (force p' run' at_ e)

namespace Pursuing

variable {p p' : Program} {run run' : Runner} {at_ : Scope} (K : Pursuing p p' run run' at_)
include K

theorem forceAll (name : String) : ∀ es : List Nat,
    K.Rel ((host p run at_ name).forceAll es) ((host p' run' at_ name).forceAll es)
  | [] => K.pure_rel _
  | e :: es => K.bind_rel (K.force_rel e) fun _ => forceAll name es

theorem forceRound (name : String) (r : Reference Nat) (k : Standing) :
    K.Rel ((host p run at_ name).forceRound r k) ((host p' run' at_ name).forceRound r k) := by
  refine K.bind_rel (K.force_rel r.candidate) fun _ => ?_
  split
  · exact K.forceAll name r.containers
  · exact K.pure_rel _

theorem pursueFrom (name : String) (rule : View Nat → Reference Nat → Standing)
    (r : Reference Nat) (remaining rounds : Nat) :
    K.Rel (pursueFrom (host p run at_ name) rule r remaining rounds)
      (Deferral.pursueFrom (host p' run' at_ name) rule r remaining rounds) := by
  induction remaining using Nat.strongRecOn generalizing rounds with
  | ind remaining ih =>
    rw [pursueFrom.eq_1 (host p run at_ name), pursueFrom.eq_1 (host p' run' at_ name)]
    refine K.bind_rel K.view_rel fun v => ?_
    dsimp only
    split
    · exact K.pure_rel _
    · refine K.bind_rel (K.emit_rel _) fun _ => K.bind_rel (K.forceRound name r _) fun _ => ?_
      refine K.bind_rel K.view_rel fun after => ?_
      split
      · exact ih _ ‹_› _
      · split
        · exact K.bind_rel (K.emit_rel _) fun _ => K.pure_rel _
        · exact K.pure_rel _

theorem pursue (name : String) (rule : View Nat → Reference Nat → Standing) (r : Reference Nat) :
    K.Rel (pursue (host p run at_ name) rule r)
      (Deferral.pursue (host p' run' at_ name) rule r) :=
  K.bind_rel K.view_rel fun _ => K.pursueFrom _ _ _ _ _

theorem pursueCheck (rule : CheckRule) (candidate : Nat) (ctx : Context) (opts : Options) :
    K.Rel (pursueCheck p run at_ rule candidate ctx opts)
      (Session.pursueCheck p' run' at_ rule candidate ctx opts) := by
  unfold Session.pursueCheck
  rw [K.alike.name, K.alike.reference]
  refine K.bind_rel (K.pursue _ _ _) fun s => ?_
  cases s.ending with
  | decided d => exact K.pure_rel _
  | undecided => exact K.pure_rel _
  | stalled k => exact K.throw_rel rfl

theorem decideDeprecation (candidate : Nat) (ctx : Context) (opts : Options) :
    K.Rel (decideDeprecation p run at_ candidate ctx opts)
      (Session.decideDeprecation p' run' at_ candidate ctx opts) := by
  unfold Session.decideDeprecation
  dsimp only
  rw [K.alike.name, K.alike.id]
  refine K.inSpan_rel _ _ (K.bind_rel (K.pursueCheck _ _ _ _) fun s => ?_)
  cases s with
  | none => exact K.pure_rel _
  | some s =>
    refine K.bind_rel (K.emit_rel _) fun _ => ?_
    cases s.1 with
    | inapplicable => exact K.pure_rel _
    | reportable =>
      -- a diagnostic shows nothing of the world but what is visible of the candidate
      have h := K.bind_rel (K.visible_rel candidate) fun a => K.pure_rel (some (Finding.report
        (deprecationReport opts (p.entity candidate).named a.deprecation ctx.flags ctx.site)))
      have hdiagnose : ∀ w, diagnose p' w candidate ctx opts = deprecationReport opts
          (p.entity candidate).named (w.visible p' candidate).deprecation ctx.flags ctx.site := by
        intro w
        rw [Session.diagnose, K.alike.named]
      simp only [hdiagnose]
      exact h

theorem decideExperimental (candidate : Nat) (ctx : Context) (opts : Options) :
    K.Rel (decideExperimental p run at_ candidate ctx opts)
      (Session.decideExperimental p' run' at_ candidate ctx opts) := by
  unfold Session.decideExperimental
  dsimp only
  rw [K.alike.name, K.alike.named]
  refine K.inSpan_rel _ _ (K.bind_rel (K.pursueCheck _ _ _ _) fun s => ?_)
  cases s with
  | none => exact K.pure_rel _
  | some s =>
    obtain ⟨d, n⟩ := s
    cases d with
    | inapplicable => exact K.pure_rel _
    | reportable => exact K.pure_rel _

end Pursuing

/-! ### The actions of a session -/

/-- Nothing but the log, the demands, the names, the keys and the launched threads differs. -/
structure World.Quiet (w w' : World) : Prop where
  bindings : w'.bindings = w.bindings
  cells : w'.cells = w.cells
  bags : w'.bags = w.bags
  nextThread : w'.nextThread = w.nextThread

theorem World.Quiet.agrees {w w' : World} (h : w.Quiet w') : w.Agrees w' :=
  ⟨h.bindings, h.cells, h.bags, Nat.le_of_eq h.nextThread.symm⟩

/-- The action involves more threads than the one that it runs on. -/
def Action.isThreaded : Action → Bool
  | .race _ _ => true
  | .raceCompute _ _ => true
  | .spawn _ => true
  | .launch _ _ _ => true
  | .join _ => true
  | _ => false

/-- The action involves no other thread, and makes no diagnostic with steps of its own. -/
def Action.isPlain : Action → Bool
  | .scripted _ _ _ => false
  | a => !a.isThreaded

/-- A relation between actions that every action of a session keeps, if it is kept by forcing an
entity, by resolving a diagnostic whose computation is related, and by performing the steps of a
scripted computation, where that is admitted. -/
structure Congruence (p : Program) (run run' : Runner) (at_ : Scope) extends
    Pursuing p p run run' at_ where
  Admits : Computation → Prop
  check_admitted : ∀ rule candidate ctx opts, Admits (.check rule candidate ctx opts)
  constant_admitted : ∀ f, Admits (.constant f)
  get_rel : Rel (get : Act World) get
  quiet_rel {f : World → World} (h : ∀ w : World, w.Quiet (f w)) :
    Rel (modify f : Act Unit) (modify f)
  guarded_rel {x y : Act Answer} (h : Rel x y) : Rel (guarded x) (guarded y)
  known_rel (o : Shared Finding) : Rel (modify fun w => w.addCell (.known o) : Act Unit)
    (modify fun w => w.addCell (.known o))
  deferred_rel {c : Computation} (h : Admits c) :
    Rel (modify fun w => w.addCell (.deferred c .empty 0) : Act Unit)
      (modify fun w => w.addCell (.deferred c .empty 0))
  push_rel (bag : String) (cell : Nat) : Rel (modify fun w => w.pushCell bag cell : Act Unit)
    (modify fun w => w.pushCell bag cell)
  nested_rel {name : String} {plan : Plan} {during : List Step}
    (h : Admits (.scripted name plan during)) :
    Rel (run (at_.inside name) during) (run' (at_.inside name) during)
  resolve_rel
    (h : ∀ c, Admits c → ∀ call, Rel (compute p run at_ call c) (compute p run' at_ call c))
    (cell : Nat) : Rel (resolve? p run at_ cell) (resolve? p run' at_ cell)

namespace Congruence

variable {p : Program} {run run' : Runner} {at_ : Scope} (K : Congruence p run run' at_)
include K

/-- Looks at the world, and answers something. -/
theorem look_rel {α : Type} (f : World → α) :
    K.Rel (do return f (← get) : Act α) (do return f (← get)) :=
  K.bind_rel K.get_rel fun _ => K.pure_rel _

theorem compute (call : Nat) {c : Computation} (h : K.Admits c) :
    K.Rel (compute p run at_ call c) (Session.compute p run' at_ call c) := by
  cases c with
  | check rule candidate ctx opts =>
    cases rule with
    | deprecation => exact K.decideDeprecation candidate ctx opts
    | experimental => exact K.decideExperimental candidate ctx opts
  | constant f => exact K.pure_rel _
  | scripted name plan during =>
    have hconclude : K.Rel (plan.conclude call) (plan.conclude call) := by
      unfold Plan.conclude
      split
      · exact K.throw_rel rfl
      · split
        · exact K.pure_rel _
        · exact K.pure_rel _
    rw [compute_scripted, compute_scripted]
    dsimp only
    split
    · exact K.bind_rel (K.nested_rel h) fun _ => hconclude
    · exact hconclude

theorem resolve? (cell : Nat) :
    K.Rel (resolve? p run at_ cell) (Session.resolve? p run' at_ cell) :=
  K.resolve_rel (fun _ hc call => K.compute call hc) cell

theorem resolveOrVoid (cell : Nat) :
    K.Rel (resolveOrVoid p run at_ cell) (Session.resolveOrVoid p run' at_ cell) :=
  K.bind_rel (K.resolve? cell) fun _ => K.pure_rel _

theorem resolveEach : ∀ cells : List Nat,
    K.Rel (resolveEach p run at_ cells) (Session.resolveEach p run' at_ cells)
  | [] => K.pure_rel _
  | cell :: cells => by
    rw [resolveEach_cons, resolveEach_cons]
    exact K.bind_rel (K.resolve? cell) fun o =>
      K.bind_rel (resolveEach cells) fun rest => K.pure_rel _

theorem collect (bag : String) :
    K.Rel (collect p run at_ bag) (Session.collect p run' at_ bag) :=
  K.bind_rel K.get_rel fun w => K.bind_rel (K.resolveEach (w.bags bag)) fun _ => K.pure_rel _

theorem objectFor (f : Finding) : K.Rel (objectFor f) (Session.objectFor f) := by
  have h := K.bind_rel K.get_rel fun w => K.bind_rel
    (K.quiet_rel (f := fun w => { w with nextKey := (objectAt w.nextKey f).2 })
      fun _ => ⟨rfl, rfl, rfl, rfl⟩) fun _ => K.pure_rel (objectAt w.nextKey f).1
  exact h

theorem createKnown (d : Diagnostic) : K.Rel (createKnown d) (Session.createKnown d) :=
  K.bind_rel (K.objectFor _) fun o => K.bind_rel K.get_rel fun _ =>
    K.bind_rel (K.known_rel o) fun _ => K.pure_rel _

theorem createDeferred {c : Computation} (h : K.Admits c) :
    K.Rel (createDeferred c) (Session.createDeferred c) :=
  K.bind_rel K.get_rel fun _ => K.bind_rel (K.deferred_rel h) fun _ => K.pure_rel _

theorem recordReference (candidate : Nat) (ctx : Context) (opts : Options) (bag : String) :
    K.Rel (recordReference p at_ candidate ctx opts bag)
      (Session.recordReference p at_ candidate ctx opts bag) := by
  refine K.bind_rel K.get_rel fun w => ?_
  have hcheck := K.createDeferred (K.check_admitted .deprecation candidate ctx opts)
  cases deprecationStanding opts (w.view p at_.thread) (p.reference candidate ctx) with
  | inapplicable => exact K.pure_rel _
  | reportable => exact K.bind_rel (K.createKnown _) fun cell => K.push_rel bag cell
  | pendingCompletion => exact K.bind_rel hcheck fun cell => K.push_rel bag cell
  | pendingAmbiguous => exact K.bind_rel hcheck fun cell => K.push_rel bag cell

theorem findCell (diag : String) : K.Rel (findCell diag) (Session.findCell diag) := by
  refine K.bind_rel K.get_rel fun w => ?_
  cases w.names.lookup diag with
  | none => exact K.throw_rel rfl
  | some cell => exact K.pure_rel _

theorem createNamed {make make' : Act Nat} (diag : String) (h : K.Rel make make') :
    K.Rel (createNamed diag make) (Session.createNamed diag make') :=
  K.bind_rel h fun _ => K.bind_rel (K.quiet_rel fun _ => ⟨rfl, rfl, rfl, rfl⟩) fun _ =>
    K.pure_rel _

theorem bagSize (bag : String) : K.Rel (bagSize bag) (Session.bagSize bag) := K.look_rel _

/-- What an action has to be for the relation to hold of it. -/
def Covers : Action → Prop
  | .scripted diag plan during => K.Admits (.scripted diag plan during)
  | a => a.isThreaded = true → K.Rel (answer p run at_ a) (answer p run' at_ a)

theorem covers_of_plain {a : Action} (h : a.isPlain = true) : K.Covers a := by
  unfold Covers
  split
  · cases h
  · rename_i a hscripted
    intro hthreaded
    rw [Action.isPlain] at h
    · rw [hthreaded] at h
      cases h
    · exact hscripted

theorem answer {a : Action} (h : K.Covers a) :
    K.Rel (answer p run at_ a) (Session.answer p run' at_ a) := by
  cases a with
  | state e => exact K.look_rel _
  | force e => exact K.bind_rel (K.force_rel e) fun _ => K.look_rel _
  | chain e => exact K.pure_rel _
  | context ctx => exact K.pure_rel _
  | standing rule e ctx opts => exact K.look_rel _
  | pursue rule e ctx opts =>
    refine K.bind_rel (K.pursueCheck rule e ctx opts) fun s => ?_
    cases s with
    | none => exact K.pure_rel _
    | some s => exact K.pure_rel _
  | diagnose e ctx opts => exact K.look_rel _
  | validate opts =>
    rw [Session.answer, Session.answer]
    cases opts.firstEmptyRule? with
    | none => exact K.pure_rel _
    | some i => exact K.pure_rel _
  | check diag rule e ctx opts =>
    exact K.createNamed diag (K.createDeferred (K.check_admitted rule e ctx opts))
  | constant diag f => exact K.createNamed diag (K.createDeferred (K.constant_admitted f))
  | known diag d => exact K.createNamed diag (K.createKnown d)
  | scripted diag plan during => exact K.createNamed diag (K.createDeferred h)
  | resolveOrVoid diag =>
    exact K.bind_rel (K.findCell diag) fun cell => K.bind_rel (K.resolveOrVoid cell) fun _ =>
      K.pure_rel _
  | resolve diag =>
    exact K.bind_rel (K.findCell diag) fun cell => K.bind_rel (K.resolve? cell) fun _ =>
      K.pure_rel _
  | peek diag => exact K.bind_rel (K.findCell diag) fun _ => K.look_rel _
  | isResolved diag => exact K.bind_rel (K.findCell diag) fun _ => K.look_rel _
  | recordReference e ctx opts bag =>
    exact K.bind_rel (K.recordReference e ctx opts bag) fun _ => K.bagSize bag
  | pushKnown d bag =>
    exact K.bind_rel (K.createKnown d) fun cell => K.bind_rel (K.push_rel bag cell) fun _ =>
      K.bagSize bag
  | push diag bag =>
    exact K.bind_rel (K.findCell diag) fun cell => K.bind_rel (K.push_rel bag cell) fun _ =>
      K.bagSize bag
  | bag bag => exact K.look_rel _
  | collect bag => exact K.bind_rel (K.collect bag) fun _ => K.look_rel _
  | describe e => exact K.look_rel _
  | describeDiagnostic diag =>
    refine K.bind_rel (K.findCell diag) fun cell => K.bind_rel K.get_rel fun w => ?_
    cases w.cells[cell]? with
    | none => exact K.throw_rel rfl
    | some c => exact K.pure_rel _
  | race diag n => exact h rfl
  | raceCompute n f => exact h rfl
  | spawn steps => exact h rfl
  | launch thread late steps => exact h rfl
  | join thread => exact h rfl

theorem perform {s : Step} (h : K.Covers s.action) :
    K.Rel (perform p run at_ s) (Session.perform p run' at_ s) := by
  cases s with
  | guarded a =>
    exact K.bind_rel (K.guarded_rel (K.answer h)) fun _ => K.quiet_rel fun _ => ⟨rfl, rfl, rfl, rfl⟩
  | uncaught a =>
    exact K.bind_rel (K.answer h) fun _ => K.quiet_rel fun _ => ⟨rfl, rfl, rfl, rfl⟩

/-- Steps that are covered are performed alike. -/
theorem performEach : ∀ {steps : List Step}, (∀ s ∈ steps, K.Covers s.action) →
    K.Rel (performEach p run at_ steps) (Session.performEach p run' at_ steps)
  | [], _ => K.pure_rel _
  | s :: steps, h => by
    have hs : K.Covers s.action := h s List.mem_cons_self
    have hsteps : ∀ s ∈ steps, K.Covers s.action := fun s hs => h s (List.mem_cons_of_mem _ hs)
    exact K.bind_rel (K.perform hs) fun _ => performEach hsteps

end Congruence
end Session
end Deferral
