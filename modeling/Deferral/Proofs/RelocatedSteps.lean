/-
# Blind to containers

No function of a session looks at what is around the site of a deprecation check whose options do
not heed containers: each of them goes in tandem in two worlds that are the same but for where such
sites are, if the nested steps that it performs do, and so by induction do steps that are nested to
any depth. The one place where a site is used is the computation of a check, and there the loop
takes the same turns for every site.

So a new diagnostic for a reference from inside any containers, as far completed as they may be, is
resolved just as if the site were outside of everything.

Key definitions: `Session.TandemRunner`, `Session.resolveNew`.
Key theorems: `Session.inTandem_force`, `Session.inTandem_compute`, `Session.inTandem_resolve?`,
`Session.inTandem_performAll`, `Session.blind_to_containers`.
-/
import Deferral.Proofs.Relocation

namespace Deferral
namespace Session

variable {p : Program} {run : Runner} {at_ : Scope} {c c' : Course}

/-- Nested steps go in tandem. -/
def TandemRunner (p : Program) (run : Runner) : Prop :=
  ∀ at_ steps, InTandem p Eq (run at_ steps) (run at_ steps)

/-! ### Completion -/

theorem inTandem_runBinder (hrun : TandemRunner p run) (e : Nat) (binder : Binder) :
    InTandem p Eq (runBinder run at_ e binder) (runBinder run at_ e binder) := by
  refine (hrun _ _).andThen fun _ => InTandem.get.bind fun w w' hw => ?_
  rw [hw.bindings]
  split
  · exact .throw _
  · exact .pure rfl

theorem endsInTandem_complete (hrun : TandemRunner p run) {e : Nat} (binder : Binder)
    (hw : c.now.Relocated p c'.now) (hidle : (c.now.bindings e).completion = .notStarted) :
    EndsInTandem p Eq c.now (complete p run at_ e binder c) (complete p run at_ e binder c') := by
  have hstarted : (c.started e at_.thread).now.Relocated p (c'.started e at_.thread).now :=
    hw.updateBinding e (·.start at_.thread)
  have hbinder : InTandem p Eq (runBinder run at_ e binder) (runBinder run at_ e binder) :=
    inTandem_runBinder hrun e binder
  have hends := hbinder _ _ hstarted
  generalize hr : runBinder run at_ e binder (c.started e at_.thread) = r at hends
  generalize hr' : runBinder run at_ e binder (c'.started e at_.thread) = r' at hends
  -- the entity itself had not begun, so what has to stay is what stays while its binder runs
  cases hends with
  | ok answers relocated keeps =>
    rw [complete_of_ok hr, complete_of_ok hr']
    exact .ok rfl (relocated.updateBinding e (·.finish _))
      (.completing (·.finish _) hidle keeps)
  | error x relocated keeps =>
    rw [complete_of_error hr, complete_of_error hr']
    exact .error x (relocated.updateBinding e (·.abandon))
      (.completing (·.abandon) hidle keeps)

theorem inTandem_force (hrun : TandemRunner p run) (e : Nat) :
    InTandem p Eq (force p run at_ e) (force p run at_ e) := by
  have hdemanding : InTandem p Eq (modify fun w => { w with demands := e :: w.demands } : Act Unit)
      (modify fun w => { w with demands := e :: w.demands }) := by
    refine .change fun w w' hw => ⟨{ hw with demands := congrArg (e :: ·) hw.demands }, ?_⟩
    exact ⟨fun _ _ => rfl, fun d => List.count_le_count_cons⟩
  refine hdemanding.andThen fun _ => ?_
  cases (p.entity e).behaviour with
  | stub needs here => exact .pure rfl
  | bare finished => exact .pure rfl
  | source wrapped completed binder =>
    refine .look fun c c' hw => ?_
    rw [hw.bindings]
    cases hd : (c.now.bindings e).demand at_.thread with
    | done => exact .ok rfl hw (.refl _)
    | reentrant => exact InTandem.emit at_ _ c c' hw
    | wait => exact .error _ hw (.refl _)
    | start => exact endsInTandem_complete hrun binder hw (Binding.demand_start_iff.mp hd)

/-- Forcing makes nothing unfinished. -/
theorem ripens_of_force (hrun : TandemRunner p run) {e : Nat}
    (h : force p run at_ e c = .ok ⟨⟩ c') : c.now.Ripens p c'.now := by
  have hforce : InTandem p Eq (force p run at_ e) (force p run at_ e) := inTandem_force hrun e
  have hends := hforce c c (.refl p c.now)
  rw [h] at hends
  cases hends with
  | ok answers relocated keeps => exact keeps.ripens

/-! ### Checks -/

/-- The forcing loop goes in tandem, for any one site. -/
def tandemPursuing (at_ : Scope) (hrun : TandemRunner p run) : Pursuing p p run run at_ where
  Rel x y := InTandem p Eq x y
  alike := .refl p
  pure_rel _ := .pure rfl
  throw_rel _ := .throw _
  bind_rel h h' := h.andThen h'
  emit_rel e := .emit at_ e
  inSpan_rel name fields h := .inSpan at_ name fields h
  view_rel := InTandem.get.bind fun _ _ hw => .pure (hw.view at_.thread).symm
  visible_rel e := InTandem.get.bind fun _ _ hw =>
    .pure (visible_congr hw.bindings hw.demands e).symm
  force_rel e := inTandem_force hrun e

/-- Checks from two sites are decided by the same turns, where containers are not heeded. -/
theorem decideDeprecation_elsewhere {opts : Options}
    (hoff : opts.suppressInDeprecatedContainers = false) (hrun : TandemRunner p run)
    {candidate : Nat} (hsrc : p.IsSource candidate) {ctx ctx' : Context}
    (h : ctx'.outside = ctx.outside) :
    decideDeprecation p run at_ candidate ctx' opts =
      decideDeprecation p run at_ candidate ctx opts := by
  have hripens : ∀ c c', force p run at_ candidate c = .ok ⟨⟩ c' → c.now.Ripens p c'.now :=
    fun _ _ hforce => ripens_of_force hrun hforce
  rw [← decideDeprecation_outside ctx opts hoff hsrc hripens,
    ← decideDeprecation_outside ctx' opts hoff hsrc hripens, h]

/-- Checks from different sites find the same, where containers are not heeded. -/
theorem inTandem_compute (hrun : TandemRunner p run) (call : Nat) {comp comp' : Computation}
    (h : comp.Relocated p comp') :
    InTandem p Eq (compute p run at_ call comp) (compute p run at_ call comp') := by
  cases h with
  | @elsewhere candidate ctx ctx' opts off source outside =>
    show InTandem p Eq (decideDeprecation p run at_ candidate ctx opts)
      (decideDeprecation p run at_ candidate ctx' opts)
    rw [decideDeprecation_elsewhere off hrun source outside]
    exact (tandemPursuing at_ hrun).decideDeprecation candidate ctx opts
  | same =>
    cases comp with
    | constant f => exact .pure rfl
    | check rule candidate ctx opts =>
      cases rule with
      | deprecation => exact (tandemPursuing at_ hrun).decideDeprecation candidate ctx opts
      | experimental => exact (tandemPursuing at_ hrun).decideExperimental candidate ctx opts
    | scripted name plan during =>
      have hconclude : InTandem p Eq (plan.conclude call) (plan.conclude call) := by
        unfold Plan.conclude
        split
        · exact .throw _
        · split
          · exact .pure rfl
          · exact .pure rfl
      rw [compute_scripted]
      dsimp only
      split
      · exact (hrun _ _).andThen fun _ => hconclude
      · exact hconclude

/-! ### Diagnostics -/

theorem inTandem_objectFor (f : Finding) : InTandem p Eq (objectFor f) (objectFor f) := by
  intro c c' hw
  have hkey : c'.now.nextKey = c.now.nextKey := hw.nextKey
  rw [objectFor_eq, objectFor_eq, hkey]
  exact .ok rfl { hw with nextKey := congrArg (fun key => (objectAt key f).2) hkey }
    (.of_eq rfl rfl)

theorem inTandem_memoize (cell : Nat) (o : Shared Finding) :
    InTandem p Eq (memoize cell o) (memoize cell o) := by
  refine .look fun c c' hw => ?_
  have hcell := hw.cell cell
  generalize c.now.cells[cell]? = d? at hcell ⊢
  generalize c'.now.cells[cell]? = d'? at hcell ⊢
  cases hcell with
  | none => exact .ok rfl hw (.refl _)
  | some hd =>
    cases hd with
    | known held => exact .ok rfl hw (.refl _)
    | deferred hcomp slot calls =>
      exact .ok rfl (hw.setCell cell (.deferred hcomp _ calls)) (.of_eq rfl rfl)

theorem inTandem_keepFinding (cell : Nat) (o : Option Finding) :
    InTandem p Eq (keepFinding at_ cell o) (keepFinding at_ cell o) := by
  cases o with
  | none => exact (InTandem.emit at_ _).andThen fun _ => .pure rfl
  | some f =>
    refine (inTandem_objectFor f).andThen fun o => (inTandem_memoize cell o).andThen fun r => ?_
    dsimp only
    split
    · exact (InTandem.emit at_ _).andThen fun _ => .pure rfl
    · exact .pure rfl

theorem inTandem_resolve? (hrun : TandemRunner p run) (cell : Nat) :
    InTandem p Eq (resolve? p run at_ cell) (resolve? p run at_ cell) := by
  intro c c' hw
  have hcell := hw.cell cell
  generalize hd : c.now.cells[cell]? = d? at hcell
  generalize hd' : c'.now.cells[cell]? = d'? at hcell
  cases hcell with
  | none =>
    rw [resolve?_of_none hd, resolve?_of_none hd']
    exact .ok rfl hw (.refl _)
  | some hrel =>
    cases hrel with
    | known o =>
      rw [resolve?_of_result hd rfl, resolve?_of_result hd' rfl]
      exact .ok rfl hw (.refl _)
    | @deferred comp comp' hcomp slot calls =>
      cases hst : slot.stored with
      | some o =>
        rw [resolve?_of_result hd hst, resolve?_of_result hd' hst]
        exact .ok rfl hw (.refl _)
      | none =>
        rw [resolve?_of_empty hd hst, resolve?_of_empty hd' hst]
        have hcounted : (c.counting cell comp slot calls).now.Relocated p
            (c'.counting cell comp' slot calls).now :=
          hw.setCell cell (.deferred hcomp slot (calls + 1))
        have hkept : c.now.Keeps (c.counting cell comp slot calls).now := .of_eq rfl rfl
        have hgo : InTandem p Eq (compute p run at_ calls comp >>= keepFinding at_ cell)
            (compute p run at_ calls comp' >>= keepFinding at_ cell) :=
          (inTandem_compute hrun calls hcomp).andThen (inTandem_keepFinding cell)
        exact (hgo _ _ hcounted).after hkept

theorem inTandem_resolveOrVoid (hrun : TandemRunner p run) (cell : Nat) :
    InTandem p Eq (resolveOrVoid p run at_ cell) (resolveOrVoid p run at_ cell) :=
  (inTandem_resolve? hrun cell).andThen fun _ => .pure rfl

/-! ### Bags -/

theorem inTandem_resolveEach (hrun : TandemRunner p run) : ∀ cells : List Nat,
      InTandem p Eq (resolveEach p run at_ cells) (resolveEach p run at_ cells)
  | [] => .pure rfl
  | cell :: cells => by
    rw [resolveEach_cons]
    refine (inTandem_resolve? hrun cell).andThen fun _ => ?_
    exact (inTandem_resolveEach hrun cells).andThen fun _ => .pure rfl

theorem inTandem_collect (hrun : TandemRunner p run) (bag : String) :
    InTandem p Eq (collect p run at_ bag) (collect p run at_ bag) := by
  refine InTandem.get.bind fun w w' hw => ?_
  rw [hw.bags]
  exact (inTandem_resolveEach hrun _).andThen fun _ => .pure rfl

theorem inTandem_create {d d' : Cell} (h : d.Relocated p d') :
    InTandem p Eq (create d) (create d') := by
  refine InTandem.get.bind fun w w' hw => ?_
  refine (InTandem.change fun _ _ hw => ⟨hw.addCell h, .of_eq rfl rfl⟩).andThen fun _ => ?_
  exact .pure hw.cells.length_eq

theorem inTandem_createKnown (d : Diagnostic) : InTandem p Eq (createKnown d) (createKnown d) :=
  (inTandem_objectFor _).andThen fun o => inTandem_create (.known o)

theorem inTandem_createDeferred {comp comp' : Computation} (h : comp.Relocated p comp') :
    InTandem p Eq (createDeferred comp) (createDeferred comp') :=
  inTandem_create (.deferred h _ _)

theorem inTandem_push (bag : String) (cell : Nat) :
    InTandem p Eq (modify fun w => w.pushCell bag cell : Act Unit)
      (modify fun w => w.pushCell bag cell) := by
  refine .change fun w w' hw => ⟨{ hw with bags := ?_ }, .of_eq rfl rfl⟩
  unfold World.pushCell
  rw [hw.bags]

theorem diagnose_relocated {w w' : World} (h : w.Relocated p w') (candidate : Nat)
    (ctx : Context) (opts : Options) :
    diagnose p w' candidate ctx opts = diagnose p w candidate ctx opts := by
  unfold diagnose
  rw [visible_congr h.bindings h.demands]

theorem inTandem_recordReference (candidate : Nat) (ctx : Context) (opts : Options)
    (bag : String) :
    InTandem p Eq (recordReference p at_ candidate ctx opts bag)
      (recordReference p at_ candidate ctx opts bag) := by
  refine InTandem.get.bind fun w w' hw => ?_
  have hdeferred : InTandem p Eq (createDeferred (.check .deprecation candidate ctx opts))
      (createDeferred (.check .deprecation candidate ctx opts)) := inTandem_createDeferred (.same _)
  rw [hw.view, diagnose_relocated hw]
  split
  · exact .pure rfl
  · exact (inTandem_createKnown _).andThen fun cell => inTandem_push bag cell
  · exact hdeferred.andThen fun cell => inTandem_push bag cell
  · exact hdeferred.andThen fun cell => inTandem_push bag cell

/-! ### Steps -/

theorem inTandem_findCell (diag : String) : InTandem p Eq (findCell diag) (findCell diag) := by
  refine InTandem.get.bind fun w w' hw => ?_
  rw [hw.names]
  split
  · exact .pure rfl
  · exact .throw _

theorem inTandem_createNamed {make : Act Nat} (diag : String) (h : InTandem p Eq make make) :
    InTandem p Answer.Alike (createNamed diag make) (createNamed diag make) := by
  refine h.andThen fun cell => .andThen (.change fun w w' hw => ?_) fun _ => .pure (.same _)
  exact ⟨{ hw with names := congrArg ((diag, cell) :: ·) hw.names }, .of_eq rfl rfl⟩

theorem inTandem_resolveOnThreads (hrun : TandemRunner p run) (cell : Nat) : ∀ n,
      InTandem p Eq (resolveOnThreads p run cell n) (resolveOnThreads p run cell n)
  | 0 => .pure rfl
  | n + 1 => by
    refine (InTandem.onThread fun at_ => inTandem_resolveOrVoid hrun cell).bind
      fun _ _ ho => ?_
    refine (inTandem_resolveOnThreads hrun cell n).andThen fun _ => .pure ?_
    exact congrArg (· :: _) ho.1

theorem inTandem_offerEach (f : Finding) : ∀ n slot,
    InTandem p Eq (offerEach f n slot) (offerEach f n slot)
  | 0, _ => .pure rfl
  | n + 1, _ => (inTandem_objectFor f).andThen fun _ =>
    (inTandem_offerEach f n _).andThen fun _ => .pure rfl

theorem inTandem_threadLog (hrun : TandemRunner p run) (steps : List Step) :
    InTandem p Answer.Alike (threadLog run steps) (threadLog run steps) :=
  .guarded ((InTandem.onThread fun at_ => hrun at_ steps).bind fun _ _ h => .pure (.thread h.2))

theorem inTandem_startThread (hrun : TandemRunner p run) (steps : List Step) :
    InTandem p Launched.Alike (startThread run steps) (startThread run steps) := by
  refine (inTandem_threadLog hrun steps).unlessWaiting.bind fun a a' ha => ?_
  cases ha with
  | none => exact .pure (.held steps)
  | some ha => exact .pure (.ended ha)

theorem inTandem_launched (thread : String) {l l' : Launched} (h : l.Alike l') :
    InTandem p Answer.Alike
      (do modify fun w => { w with launched := (thread, l) :: w.launched }; return .nothing)
      (do modify fun w => { w with launched := (thread, l') :: w.launched }; return .nothing) := by
  refine .andThen (.change fun w w' hw => ?_) fun _ => .pure (.same _)
  exact ⟨{ hw with launched := .cons ⟨rfl, h⟩ hw.launched }, .of_eq rfl rfl⟩

/-- Looks at the world, and answers something that is the same wherever sites are. -/
theorem inTandem_shown {f : World → Answer}
    (h : ∀ w w', w.Relocated p w' → (f w).Alike (f w')) :
    InTandem p Answer.Alike (do return f (← get) : Act Answer) (do return f (← get)) :=
  InTandem.get.bind fun w w' hw => .pure (h w w' hw)

theorem inTandem_bagSize (bag : String) : InTandem p Answer.Alike (bagSize bag) (bagSize bag) :=
  inTandem_shown fun _ _ hw => .of_eq (by rw [hw.bags, hw.pending])

theorem entityReport_relocated {w w' : World} (h : w.Relocated p w') (t : Thread) (e : Nat) :
    entityReport p t w' e = entityReport p t w e := by
  have hview : w'.view p t = w.view p t := h.view t
  have hfinished : w'.finished p e = w.finished p e := congrFun (congrArg View.finished hview) e
  have hhere : w'.completingOn p t e = w.completingOn p t e :=
    congrFun (congrArg View.completingHere hview) e
  unfold entityReport
  rw [hfinished, hhere, visible_congr h.bindings h.demands, h.bindings, h.demands]

/-- Actions go in tandem, but for texts in their answers. -/
theorem inTandem_answer (hrun : TandemRunner p run) (a : Action) :
    InTandem p Answer.Alike (answer p run at_ a) (answer p run at_ a) := by
  have hmake : ∀ comp, InTandem p Eq (createDeferred comp) (createDeferred comp) :=
    fun comp => inTandem_createDeferred (.same comp)
  cases a with
  | state e =>
    exact inTandem_shown fun _ _ hw => .of_eq (by rw [entityReport_relocated hw])
  | force e =>
    refine (inTandem_force hrun e).andThen fun _ => inTandem_shown fun _ _ hw => .of_eq ?_
    rw [finished_congr hw.bindings hw.demands]
  | chain e => exact .pure (.same _)
  | context ctx => exact .pure (.same _)
  | standing rule e ctx opts => exact inTandem_shown fun _ _ hw => .of_eq (by rw [hw.view])
  | pursue rule e ctx opts =>
    refine ((tandemPursuing at_ hrun).pursueCheck rule e ctx opts).andThen fun s => ?_
    cases s with
    | none => exact .pure (.same _)
    | some s => exact .pure (.same _)
  | diagnose e ctx opts =>
    exact inTandem_shown fun _ _ hw => .of_eq (by rw [diagnose_relocated hw])
  | validate opts =>
    rw [answer]
    split
    · exact .pure (.same _)
    · exact .pure (.same _)
  | check diag rule e ctx opts => exact inTandem_createNamed diag (hmake _)
  | constant diag f => exact inTandem_createNamed diag (hmake _)
  | known diag d => exact inTandem_createNamed diag (inTandem_createKnown d)
  | scripted diag plan during => exact inTandem_createNamed diag (hmake _)
  | resolveOrVoid diag =>
    exact (inTandem_findCell diag).andThen fun cell =>
      (inTandem_resolveOrVoid hrun cell).andThen fun _ => .pure (.same _)
  | resolve diag =>
    exact (inTandem_findCell diag).andThen fun cell =>
      (inTandem_resolve? hrun cell).andThen fun _ => .pure (.same _)
  | peek diag =>
    exact (inTandem_findCell diag).andThen fun cell =>
      inTandem_shown fun _ _ hw => .of_eq (by rw [hw.memoized?])
  | isResolved diag =>
    exact (inTandem_findCell diag).andThen fun cell =>
      inTandem_shown fun _ _ hw => .of_eq (by rw [hw.isResolved])
  | recordReference e ctx opts bag =>
    exact (inTandem_recordReference e ctx opts bag).andThen fun _ => inTandem_bagSize bag
  | pushKnown d bag =>
    exact (inTandem_createKnown d).andThen fun cell => (inTandem_push bag cell).andThen fun _ =>
      inTandem_bagSize bag
  | push diag bag =>
    exact (inTandem_findCell diag).andThen fun cell => (inTandem_push bag cell).andThen fun _ =>
      inTandem_bagSize bag
  | bag bag => exact inTandem_shown fun _ _ hw => .of_eq (by rw [hw.bags, hw.pending])
  | collect bag =>
    exact (inTandem_collect hrun bag).andThen fun _ =>
      inTandem_shown fun _ _ hw => .of_eq (by rw [hw.pending])
  | describe e => exact inTandem_shown fun _ _ _ => .text _ _
  | describeDiagnostic diag =>
    refine (inTandem_findCell diag).andThen fun cell => InTandem.get.bind fun w w' hw => ?_
    have hcell := hw.cell cell
    generalize w.cells[cell]? = d? at hcell ⊢
    generalize w'.cells[cell]? = d'? at hcell ⊢
    cases hcell with
    | none => exact .throw _
    | some _ => exact .pure (.text _ _)
  | race diag n =>
    exact (inTandem_findCell diag).andThen fun cell =>
      (inTandem_resolveOnThreads hrun cell n).andThen fun _ => .pure (.same _)
  | raceCompute n f => exact (inTandem_offerEach f n _).andThen fun _ => .pure (.same _)
  | spawn steps => exact inTandem_threadLog hrun steps
  | launch thread late steps =>
    rw [answer]
    split
    · exact (InTandem.pure (.held steps)).bind fun _ _ hl => inTandem_launched thread hl
    · exact (inTandem_startThread hrun steps).bind fun _ _ hl => inTandem_launched thread hl
  | join thread =>
    refine InTandem.get.bind fun w w' hw => ?_
    have hlaunched := hw.lookup_launched thread
    generalize w.launched.lookup thread = l? at hlaunched ⊢
    generalize w'.launched.lookup thread = l'? at hlaunched ⊢
    cases hlaunched with
    | none => exact .throw _
    | some hl =>
      cases hl with
      | ended ha => exact .pure ha
      | held steps => exact inTandem_threadLog hrun steps

theorem inTandem_perform (hrun : TandemRunner p run) (s : Step) :
    InTandem p Eq (perform p run at_ s) (perform p run at_ s) := by
  have hanswer : ∀ a, InTandem p Answer.Alike (answer p run at_ a) (answer p run at_ a) :=
    inTandem_answer hrun
  cases s with
  | guarded a => exact (hanswer a).guarded.bind fun _ _ h => .note (.step _ _ h)
  | uncaught a => exact (hanswer a).bind fun _ _ h => .note (.step _ _ h)

theorem inTandem_performEach (hrun : TandemRunner p run) : ∀ steps : List Step,
      InTandem p Eq (performEach p run at_ steps) (performEach p run at_ steps)
  | [] => .pure rfl
  | s :: steps => (inTandem_perform hrun s).andThen fun _ =>
    inTandem_performEach hrun steps

/-- Steps nested to any depth go in tandem. -/
theorem inTandem_performAll (p : Program) : ∀ depth, TandemRunner p (performAll p depth)
  | 0 => fun _ _ => .throw _
  | depth + 1 => fun _ steps => inTandem_performEach (inTandem_performAll p depth) steps

/-! ### A new diagnostic -/

/-- Resolves a new diagnostic for a reference to a possibly deprecated entity. -/
def resolveNew (p : Program) (run : Runner) (at_ : Scope) (candidate : Nat) (ctx : Context)
    (opts : Options) : Act (Option (Shared Finding)) := do
  resolve? p run at_ (← createDeferred (.check .deprecation candidate ctx opts))

/-- **Blind to containers.** Under options that do not heed containers, if the candidate has a
binder, it makes no difference what is around the site of a reference, nor how far that is
completed. In any state the loop takes the same turns for the reference as for one from outside of
everything: it forces the candidate once at most, and forces nothing else. And a new diagnostic for
the reference is resolved just as one for a site outside of everything: to the same object, to none,
or to the same failure, after the same demands, with all entities as far completed, and with the
same log but for texts. -/
theorem blind_to_containers (p : Program) {opts : Options}
    (hoff : opts.suppressInDeprecatedContainers = false) {candidate : Nat}
    (hsrc : p.IsSource candidate) (depth : Nat) (at_ : Scope) (ctx : Context) :
    (∀ name, pursue (host p (performAll p depth) at_ name)
        (CheckRule.deprecation.standing opts) (p.reference candidate ctx) =
      pursueCandidate (host p (performAll p depth) at_ name)
        (CheckRule.deprecation.standing opts) (p.reference candidate ctx.outside)) ∧
    InTandem p Eq (resolveNew p (performAll p depth) at_ candidate ctx opts)
      (resolveNew p (performAll p depth) at_ candidate ctx.outside opts) := by
  have hrun := inTandem_performAll p depth
  refine ⟨fun name => ?_, ?_⟩
  · have hripens : ∀ c c', force p (performAll p depth) at_ candidate c = .ok ⟨⟩ c' →
        c.now.Ripens p c'.now := fun _ _ hforce => ripens_of_force hrun hforce
    have halone : pursue (host p (performAll p depth) at_ name)
          (CheckRule.deprecation.standing opts) (p.reference candidate ctx.outside) = _ :=
      pursue_alone (r := p.reference candidate ctx) hoff hsrc hripens
    rw [← halone]
    exact pursue_eq_pursueCandidate hoff hsrc hripens
  · have hcreate : InTandem p Eq (createDeferred (.check .deprecation candidate ctx opts))
        (createDeferred (.check .deprecation candidate ctx.outside opts)) :=
      inTandem_createDeferred (.elsewhere hoff hsrc rfl)
    exact hcreate.andThen fun cell => inTandem_resolve? hrun cell

/-- An old entity whose binder completes the inner one of the two around a site. The outer one is
old as well, and would silence the site if it were heeded, and its binder fails. -/
def unheeded : Program where
  entities :=
    [⟨0, "Outer", .type, none, ⟨some .plain, false⟩, .source true false ⟨[], 1⟩⟩,
      ⟨1, "Inner", .method, some 0, .plain, .source true false .plain⟩,
      ⟨2, "Old", .method, none, ⟨some .plain, false⟩,
        .source true false ⟨[.uncaught (.force 1)], 0⟩⟩]

/-- Resolves a new diagnostic for a use of the old entity at a site. -/
def unheededUse (ctx : Context) : Act (Option (Shared Finding)) :=
  resolveNew unheeded (performAll unheeded 2) ⟨mainThread, []⟩ 2 ctx CheckRule.heedless

/-- While the outer entity is being completed, the old one is reported at a site in the inner one,
and neither the loop nor anything else asks for the outer one. -/
theorem blind_to_containers_while_binding :
    CheckRule.heedless.suppressInDeprecatedContainers = false ∧ unheeded.IsSource 2 ∧
    unheeded.chain innerSite.containing = [1, 0] ∧
    ∃ c : Course, c.now.completingOn unheeded mainThread 0 = true ∧
      ∃ o c₁ c₂, unheededUse innerSite c = .ok (some o) c₁ ∧
        unheededUse innerSite.outside c = .ok (some o) c₂ ∧ o.value.diagnostic?.isSome = true ∧
        c₁.now.demands = [1, 2] ∧ c₂.now.demands = [1, 2] := by
  have hoff : CheckRule.heedless.suppressInDeprecatedContainers = false := rfl
  have hsrc : unheeded.IsSource 2 := ⟨true, false, _, rfl⟩
  refine ⟨hoff, hsrc, by decide, (⟨World.initial unheeded, []⟩ : Course).started 0 mainThread,
    by decide, ?_⟩
  generalize hc : (⟨World.initial unheeded, []⟩ : Course).started 0 mainThread = c
  have hreports : ((unheededUse innerSite).answer? c).map
      (Option.map (·.value.diagnostic?.isSome)) = some (some true) := by
    rw [← hc]
    cbv
  have hdemands : ((unheededUse innerSite).course c).now.demands = [1, 2] := by
    rw [← hc]
    cbv
  obtain ⟨o?, hanswer, ho⟩ := Option.map_eq_some_iff.mp hreports
  obtain ⟨o, rfl, hreported⟩ := Option.map_eq_some_iff.mp ho
  have hinner := Act.eq_ok_of_answer? hanswer
  obtain ⟨-, hresolves⟩ := blind_to_containers unheeded hoff hsrc 2 ⟨mainThread, []⟩ innerSite
  have hends : EndsInTandem unheeded Eq c.now (unheededUse innerSite c)
      (unheededUse innerSite.outside c) := hresolves c c (.refl unheeded c.now)
  rw [hinner] at hends
  obtain ⟨c', houtside, relocated⟩ := hends.eq_ok
  exact ⟨o, _, c', hinner, houtside, hreported, hdemands, relocated.demands.trans hdemands⟩

end Session
end Deferral
