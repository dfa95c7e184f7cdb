/-
# Results are grounded

A check memoizes a result when its reference is decided, and what is decided stays decided. So at
each moment of a session, inside binders and computations as well as between them, the reference of
every check that is resolved is decided in that very world. This says more than that the
result is right: nothing is memoized before what it depends on is complete.

Key definitions: `Session.World.standing`, `Session.World.Grounded`.
Key theorems: `Session.decided_of_compute`, `Session.grounded_performAll`,
`Session.grounded_of_mem_moments`.
-/
import Deferral.Proofs.Unwinding
import Deferral.Proofs.Correspondence

namespace Deferral
namespace Session

variable {p : Program} {run : Runner} {at_ : Scope} {t : Thread} {α : Type} {w w' : World}
variable {c c' : Course}

/-! ### Where references stand in a world -/

/-- Where a reference stands in a world, under some options. -/
def World.standing (p : Program) (w : World) (o : Options) (rule : CheckRule) (r : Reference Nat) :
    Standing :=
  rule.standing o (w.view p mainThread) r

/-- A reference stands the same on every thread. -/
theorem World.standing_eq (p : Program) (w : World) (t : Thread) (o : Options) (rule : CheckRule)
    (r : Reference Nat) : rule.standing o (w.view p t) r = w.standing p o rule r :=
  rule.standing_congr fun _ _ => ⟨rfl, rfl⟩

/-- If a check is resolved, then its reference is decided. -/
def Cell.Grounded (p : Program) (w : World) : Cell → Prop
  | .deferred (.check rule candidate ctx opts) slot _ =>
    slot.stored.isSome = true →
      ∃ d, (w.standing p opts rule (p.reference candidate ctx)).decision? = some d
  | _ => True

/-- The world is sound, the thread has been started, and each check that is resolved is decided. -/
structure World.Grounded (p : Program) (t : Thread) (w : World) : Prop where
  sound : w.Sound p
  hosts : w.Hosts t
  checks : ∀ c ∈ w.cells, c.Grounded p w

theorem World.grounded_initial (p : Program) : (World.initial p).Grounded p mainThread where
  sound := World.sound_initial p
  hosts := hosts_initial p
  checks c h := by cases h

theorem Cell.grounded_of_empty (p : Program) (w : World) (c : Computation) :
    (Cell.deferred c .empty 0).Grounded p w := by
  cases c <;> simp [Cell.Grounded, WriteOnce.empty]

theorem Cell.Grounded.of_stored {comp : Computation} {slot slot' : WriteOnce Finding}
    {calls calls' : Nat} (h : (Cell.deferred comp slot calls).Grounded p w)
    (hs : slot'.stored = slot.stored) : (Cell.deferred comp slot' calls').Grounded p w := by
  cases comp with
  | check rule candidate ctx opts => exact fun hst => h (hs ▸ hst)
  | constant f => trivial
  | scripted name plan during => trivial

/-- What is decided stays so where more is complete. -/
theorem Cell.Grounded.extend {d : Cell} (h : d.Grounded p w)
    (hext : (w.view p mainThread).Extends (w'.view p mainThread)) : d.Grounded p w' := by
  cases d with
  | known o => trivial
  | deferred comp slot calls =>
    cases comp with
    | check rule candidate ctx opts =>
      intro hst
      obtain ⟨k, hk⟩ := h hst
      refine ⟨k, ?_⟩
      rw [World.standing, rule.standing_stable hext hk]
      exact hk
    | constant f => trivial
    | scripted name plan during => trivial

/-! ### What keeps results grounded -/

namespace World.Grounded

/-- A change that touches neither entities nor diagnostics. -/
theorem of_eq (hp : p.Sourced) (h : w.Grounded p t) (hb : w'.bindings = w.bindings)
    (hc : w'.cells = w.cells) (ht : w.nextThread ≤ w'.nextThread) : w'.Grounded p t where
  sound := h.sound.of_eq hb hc ht
  hosts := ⟨h.hosts.1, Nat.lt_of_lt_of_le h.hosts.2 ht⟩
  checks d hd := by
    have hext : (w.view p mainThread).Extends (w'.view p mainThread) :=
      extends_of_complete hp fun _ _ he => hb ▸ he
    exact (h.checks d (hc ▸ hd)).extend hext

theorem addCell (hp : p.Sourced) (h : w.Grounded p t) {d : Cell} (hr : d.Right p)
    (hd : d.Grounded p w) : (w.addCell d).Grounded p t where
  sound := h.sound.addCell hr
  hosts := h.hosts
  checks d' hd' := by
    have hext : (w.view p mainThread).Extends ((w.addCell d).view p mainThread) :=
      extends_of_complete hp fun _ _ he => he
    rcases List.mem_append.mp hd' with hm | hm
    · exact (h.checks d' hm).extend hext
    · rw [List.mem_singleton.mp hm]
      exact hd.extend hext

theorem setCell (hp : p.Sourced) (h : w.Grounded p t) (i : Nat) {d : Cell} (hr : d.Right p)
    (hd : d.Grounded p w) : (w.setCell i d).Grounded p t where
  sound := h.sound.setCell i hr
  hosts := h.hosts
  checks d' hd' := by
    have hext : (w.view p mainThread).Extends ((w.setCell i d).view p mainThread) :=
      extends_of_complete hp fun _ _ he => he
    rcases List.mem_or_eq_of_mem_set hd' with hm | rfl
    · exact (h.checks d' hm).extend hext
    · exact hd.extend hext

/-- A binding that is not complete may change. -/
theorem updateBinding (hp : p.Sourced) (h : w.Grounded p t) {e : Nat} {f : Binding → Binding}
    (hnot : ∀ d, (w.bindings e).completion ≠ .complete d)
    (hs : (w.updateBinding e f).Sound p) : (w.updateBinding e f).Grounded p t where
  sound := hs
  hosts := h.hosts
  checks d hd := by
    refine (h.checks d hd).extend (extends_of_complete hp fun i a hi => ?_)
    by_cases hie : i = e
    · subst hie
      exact absurd hi (hnot a)
    · rw [World.updateBinding_ne w hie]
      exact hi

/-- A world in which a thread has been started has every earlier thread started. -/
theorem earlier {t' : Thread} (h : w.Grounded p t') (hm : mainThread ≤ t) (ht : t ≤ t') :
    w.Grounded p t :=
  ⟨h.sound, ⟨hm, Nat.lt_of_le_of_lt ht h.hosts.2⟩, h.checks⟩

end World.Grounded

theorem grounded_quiet (hp : p.Sourced) {f : World → World} (h : ∀ w : World, w.Agrees (f w)) :
    Keeps (World.Grounded p t) (modify f : Act Unit) :=
  .change fun w hw => hw.of_eq hp (h w).bindings (h w).cells (h w).nextThread

theorem grounded_log (hp : p.Sourced) (w : World) (log : List Entry) (h : w.Grounded p t) :
    World.Grounded p t { w with log } :=
  h.of_eq hp rfl rfl (Nat.le_refl _)

/-! ### Completion -/

/-- Nested steps keep results grounded on the thread that they run on. -/
def GroundedRunner (p : Program) (run : Runner) : Prop :=
  ∀ at_ steps, Keeps (World.Grounded p at_.thread) (run at_ steps)

/-- A binder that has been started is active until it ends, so its entity is not complete before. -/
theorem grounded_complete (hp : p.Sourced) (hlaw : LawfulRunner p run)
    (hrun : GroundedRunner p run) {e : Nat} (binder : Binder) (hg : c.now.Grounded p at_.thread)
    (hidle : (c.now.bindings e).completion = .notStarted) :
    c.Through (World.Grounded p at_.thread) ((complete p run at_ e binder).course c) := by
  have hs₀ : (c.started e at_.thread).now.Sound p := sound_started hg.sound hg.hosts
  have hg₀ : (c.started e at_.thread).now.Grounded p at_.thread :=
    hg.updateBinding hp (e := e) (f := (·.start at_.thread)) (by simp [hidle]) hs₀
  have hstart : c.Through (World.Grounded p at_.thread) (c.started e at_.thread) := .goOn hg₀
  have hsteps := hrun (at_.inside s!"e{e}") binder.steps _ hg₀
  rw [← course_runBinder] at hsteps
  have hpass := lawful_runBinder hlaw e binder (c.started e at_.thread) hs₀ hg.hosts
  have hactive := active_of_passage hpass
  have hnot : ∀ d, (((runBinder run at_ e binder).course
      (c.started e at_.thread)).now.bindings e).completion ≠ .complete d := by
    rw [hactive]
    simp [Binding.start]
  have hgend := hsteps.now hg₀
  cases hb : runBinder run at_ e binder (c.started e at_.thread) with
  | ok a c₁ =>
    rw [Act.course_of_ok hb] at hsteps hnot hgend
    rw [Act.course_of_ok (complete_of_ok hb)]
    refine (hstart.trans hsteps).trans (.goOn (hgend.updateBinding hp hnot ?_))
    refine hgend.sound.updateBinding e (fun d hd => ?_) fun t h => ?_
    · simpa [Binding.finish] using hd.symm
    · simp [Binding.finish] at h
  | error x c₁ =>
    rw [Act.course_of_error hb] at hsteps hnot hgend
    rw [Act.course_of_error (complete_of_error hb)]
    refine (hstart.trans hsteps).trans (.goOn (hgend.updateBinding hp hnot ?_))
    refine hgend.sound.updateBinding e (fun d hd => ?_) fun t h => ?_
    · simp [Binding.abandon] at hd
    · simp [Binding.abandon] at h

theorem grounded_force (hp : p.Sourced) (hlaw : LawfulRunner p run) (hrun : GroundedRunner p run)
    (e : Nat) : Keeps (World.Grounded p at_.thread) (force p run at_ e) := by
  have hdemand : Keeps (World.Grounded p at_.thread)
      (modify fun w => { w with demands := e :: w.demands } : Act Unit) :=
    grounded_quiet hp fun _ => ⟨rfl, rfl, rfl, Nat.le_refl _⟩
  cases hbeh : (p.entity e).behaviour with
  | stub needs here =>
    rw [force_of_no_binder (congrArg Behaviour.isSource hbeh)]
    exact hdemand
  | bare finished =>
    rw [force_of_no_binder (congrArg Behaviour.isSource hbeh)]
    exact hdemand
  | source wrapped completed binder =>
    intro c hg
    have hcount : c.Through (World.Grounded p at_.thread) (c.demanding e) := hdemand c hg
    have hg' := hcount.now hg
    rw [Act.course, force_source hbeh]
    refine hcount.trans ?_
    cases hd : (c.now.bindings e).demand at_.thread with
    | done => exact .refl _ _
    | reentrant => exact Keeps.emit (grounded_log hp) at_ _ _ hg'
    | wait => exact .refl _ _
    | start => exact grounded_complete hp hlaw hrun binder hg' (Binding.demand_start_iff.mp hd)

/-! ### Diagnostics -/

/-- What a span does to the world apart from its body concerns the log alone. -/
theorem inSpan_now {name : String} {fields : List (String × FieldValue)} {body : Act α} {a : α}
    (h : inSpan at_ name fields body c = .ok a c') :
    ∃ c₁ c₂ log log', c₁.now = { c.now with log } ∧ body c₁ = .ok a c₂ ∧
      c'.now = { c₂.now with log := log' } := by
  obtain ⟨c₁, log, h₁, hlog⟩ := emit_runs at_ ⟨.span, name, fields⟩ c
  cases hb : body c₁ with
  | ok b c₂ =>
    obtain ⟨c₃, log', h₃, hlog'⟩ := emit_runs at_ ⟨.exit, name, []⟩ c₂
    cases (inSpan_of_ok h₁ hb h₃).symm.trans h
    exact ⟨c₁, c₂, log, log', hlog, hb, hlog'⟩
  | error x c₂ =>
    obtain ⟨c₃, log', h₃, -⟩ := emit_runs at_ ⟨.exit, name, []⟩ c₂
    cases (inSpan_of_error h₁ hb h₃).symm.trans h

/-- A check that ends has pursued its reference, and finds something where that is decided. -/
theorem compute_check_ok {call candidate : Nat} {rule : CheckRule} {ctx : Context} {opts : Options}
    {f : Option Finding}
    (h : compute p run at_ call (.check rule candidate ctx opts) c = .ok f c') :
    ∃ c₁ c₂ s log log', c₁.now = { c.now with log } ∧
      pursueCheck p run at_ rule candidate ctx opts c₁ = .ok s c₂ ∧
      c'.now = { c₂.now with log := log' } ∧ s.isSome = f.isSome := by
  cases rule with
  | deprecation =>
    obtain ⟨c₁, c₂, log, log', h₁, h, h₂⟩ := inSpan_now h
    obtain ⟨s, c₃, hs, h⟩ := Act.bind_eq_ok h
    cases s with
    | none =>
      cases h
      exact ⟨c₁, c₂, none, log, log', h₁, hs, h₂, rfl⟩
    | some s =>
      obtain ⟨u, c₄, hemit, h⟩ := Act.bind_eq_ok h
      obtain ⟨log'', hlog⟩ := emit_ok hemit
      have hend : c₂ = c₄ ∧ f.isSome = true := by
        cases hd : s.1 with
        | reportable =>
          simp only [hd] at h
          cases h
          exact ⟨rfl, rfl⟩
        | inapplicable =>
          simp only [hd] at h
          cases h
          exact ⟨rfl, rfl⟩
      obtain ⟨rfl, hf⟩ := hend
      exact ⟨c₁, c₃, some s, log, log', h₁, hs, by rw [h₂, hlog], hf.symm⟩
  | experimental =>
    obtain ⟨c₁, c₂, log, log', h₁, h, h₂⟩ := inSpan_now h
    obtain ⟨s, c₃, hs, h⟩ := Act.bind_eq_ok h
    have hend : c₂ = c₃ ∧ s.isSome = f.isSome := by
      rcases s with _ | ⟨_ | _, n⟩ <;> cases h <;> exact ⟨rfl, rfl⟩
    obtain ⟨rfl, hf⟩ := hend
    exact ⟨c₁, c₂, s, log, log', h₁, hs, h₂, hf⟩

/-- A check that finds something leaves a world in which its reference is decided. -/
theorem decided_of_compute {call candidate : Nat} {rule : CheckRule} {ctx : Context}
    {opts : Options} {f : Finding}
    (h : compute p run at_ call (.check rule candidate ctx opts) c = .ok (some f) c') :
    ∃ d, (c'.now.standing p opts rule (p.reference candidate ctx)).decision? = some d := by
  obtain ⟨c₁, c₂, s, log, log', -, hs, h', hsome⟩ := compute_check_ok h
  obtain ⟨⟨d, n⟩, rfl⟩ := Option.isSome_iff_exists.mp hsome
  refine ⟨d, ?_⟩
  rw [← World.standing_eq p c'.now at_.thread, h']
  exact pursueCheck_decided hs

/-- An object is memoized for a computation that has found it, and the reference is decided if it
checks one. -/
theorem grounded_keepFinding (hp : p.Sourced) {cell calls : Nat} {comp : Computation}
    {slot : WriteOnce Finding} {f : Option Finding}
    (hc : c.now.cells[cell]? = some (.deferred comp slot calls))
    (hfinds : ∀ g rule candidate ctx opts, f = some g → comp = .check rule candidate ctx opts →
      p.Finds rule candidate ctx opts g ∧
        ∃ d, (c.now.standing p opts rule (p.reference candidate ctx)).decision? = some d)
    (hg : c.now.Grounded p t) :
    c.Through (World.Grounded p t) ((keepFinding at_ cell f).course c) := by
  cases f with
  | none => exact ((Keeps.emit (grounded_log hp) at_ _).bind fun _ => .pure _) c hg
  | some g =>
    have hg₁ : (c.making g).now.Grounded p t := hg.of_eq hp rfl rfl (Nat.le_refl _)
    have hmem := hg₁.checks _ (List.mem_of_getElem? hc)
    have hright : (Cell.deferred comp (slot.offer (objectAt c.now.nextKey g).1).2 calls).Right p :=
      (hg₁.sound.cells _ (List.mem_of_getElem? hc)).offer fun rule candidate ctx opts hcomp => by
        rw [objectAt_value]
        exact (hfinds g rule candidate ctx opts rfl hcomp).1
    have hground : (Cell.deferred comp (slot.offer (objectAt c.now.nextKey g).1).2 calls).Grounded p
        (c.making g).now := by
      cases comp with
      | check rule candidate ctx opts => exact fun _ => (hfinds g rule candidate ctx opts rfl rfl).2
      | constant f => trivial
      | scripted name plan during => trivial
    have hmemoize := memoize_of_deferred (c := c.making g) hc (objectAt c.now.nextKey g).1
    have hg₂ := hg₁.setCell hp cell hright hground
    have hanswer : ∀ r, Keeps (World.Grounded p t) (answerOffer at_ r) := by
      intro r
      unfold answerOffer
      split
      · exact (Keeps.emit (grounded_log hp) at_ _).bind fun _ => .pure _
      · exact .pure _
    rw [course_keepFinding_of_offer hmemoize]
    exact ((Course.Through.goOn hg₁).trans (.goOn hg₂)).trans (hanswer _ _ hg₂)

theorem grounded_resolve? (hp : p.Sourced) (hlaw : LawfulRunner p run)
    (hcompute : ∀ comp call, Keeps (World.Grounded p at_.thread) (compute p run at_ call comp))
    (cell : Nat) : Keeps (World.Grounded p at_.thread) (resolve? p run at_ cell) := by
  intro c hg
  cases hc : c.now.cells[cell]? with
  | none =>
    rw [Act.course_of_ok (resolve?_of_none hc)]
    exact .refl _ c
  | some d =>
  cases hd : d.result? with
  | some o =>
    rw [Act.course_of_ok (resolve?_of_result hc hd)]
    exact .refl _ c
  | none =>
  cases d with
  | known o => cases hd
  | deferred comp slot calls =>
    have hmem := List.mem_of_getElem? hc
    have hg₁ : (c.counting cell comp slot calls).now.Grounded p at_.thread :=
      hg.setCell hp cell ((hg.sound.cells _ hmem).of_stored rfl)
        ((hg.checks _ hmem).of_stored rfl)
    have hcount : c.Through (World.Grounded p at_.thread) (c.counting cell comp slot calls) :=
      .goOn hg₁
    have hrun := hcompute comp calls _ hg₁
    rw [Act.course, resolve?_of_empty hc hd]
    refine hcount.trans ?_
    cases hcomp : compute p run at_ calls comp (c.counting cell comp slot calls) with
    | error x c₁ =>
      rw [Act.course_of_error hcomp] at hrun
      rw [Act.bind_of_error hcomp]
      exact hrun
    | ok f c₁ =>
      rw [Act.course_of_ok hcomp] at hrun
      rw [Act.bind_of_ok hcomp]
      -- whatever ran meanwhile, the diagnostic still has this computation
      have hcounted : Passage p c (c.counting cell comp slot calls) := passage_count hg.sound hc
      have hpass := (lawful_compute hlaw calls comp).ok hg₁.sound hg₁.hosts hcomp
      obtain ⟨_, hc₁, slot', calls', rfl, -⟩ := (hcounted.later.trans hpass.later).cells cell _ hc
      refine hrun.trans (grounded_keepFinding hp hc₁ ?_ (hrun.now hg₁))
      rintro g rule candidate ctx opts rfl rfl
      exact ⟨compute_finds hlaw hg₁.sound hg₁.hosts hcomp, decided_of_compute hcomp⟩

/-- What keeps results grounded, as a property that the actions of a session keep. -/
def groundedness (hp : p.Sourced) (hlaw : LawfulRunner p run) (hrun : GroundedRunner p run)
    (at_ : Scope) : Congruence p run run at_ where
  Rel x _ := Keeps (World.Grounded p at_.thread) x
  Admits _ := True
  alike := .refl p
  pure_rel := .pure
  throw_rel _ := .throw _
  bind_rel h h' := h.bind h'
  emit_rel := .emit (grounded_log hp) at_
  inSpan_rel name fields h := h.inSpan (grounded_log hp) at_ name fields
  view_rel := .bind .get fun _ => .pure _
  visible_rel _ := .bind .get fun _ => .pure _
  force_rel := grounded_force hp hlaw hrun
  check_admitted _ _ _ _ := trivial
  constant_admitted _ := trivial
  get_rel := .get
  quiet_rel h := grounded_quiet hp fun w => (h w).agrees
  guarded_rel h := h.guarded
  known_rel _ := .change fun _ hw => hw.addCell hp trivial trivial
  deferred_rel {d} _ := .change fun w hw =>
    hw.addCell hp (Cell.right_of_empty p d) (Cell.grounded_of_empty p w d)
  push_rel _ _ := .change fun _ hw => hw.of_eq hp rfl rfl (Nat.le_refl _)
  nested_rel {name _ during} _ := hrun (at_.inside name) during
  resolve_rel h cell := grounded_resolve? hp hlaw (fun comp call => h comp trivial call) cell

/-! ### Threads -/

/-- What a new thread keeps grounded, the thread that waits for it keeps grounded. -/
theorem grounded_onThread (hp : p.Sourced) {body : Scope → Act α}
    (h : ∀ at_, Keeps (World.Grounded p at_.thread) (body at_)) :
    Keeps (World.Grounded p t) (onThread body) := by
  intro c hg
  have hlaunched : c.launching.now.Grounded p t := hg.of_eq hp rfl rfl (Nat.le_succ _)
  have hg₁ : c.launching.now.Grounded p c.now.nextThread :=
    ⟨hlaunched.sound, hosts_launching hg.hosts, hlaunched.checks⟩
  have hearlier : ∀ w : World, w.Grounded p c.now.nextThread → w.Grounded p t := fun w hw =>
    hw.earlier hg.hosts.1 (Nat.le_of_lt hg.hosts.2)
  have hstart : c.Through (World.Grounded p t) c.launching := .goOn hlaunched
  obtain ⟨ws, hws, hall⟩ := h ⟨c.now.nextThread, []⟩ _ hg₁
  have hbody : c.launching.Through (World.Grounded p t)
      ((body ⟨c.now.nextThread, []⟩).course c.launching) :=
    ⟨ws, hws, fun w hw => hearlier w (hall w hw)⟩
  have hend := hbody.now hlaunched
  cases hb : body ⟨c.now.nextThread, []⟩ c.launching with
  | ok a c₁ =>
    rw [Act.course_of_ok hb] at hbody hend
    rw [Act.course_of_ok (onThread_of_ok hb)]
    exact (hstart.trans hbody).trans (.goOn (grounded_log hp _ _ hend))
  | error x c₁ =>
    rw [Act.course_of_error hb] at hbody hend
    rw [Act.course_of_error (onThread_of_error hb)]
    exact (hstart.trans hbody).trans (.goOn (grounded_log hp _ _ hend))

section

variable (hp : p.Sourced) (hlaw : LawfulRunner p run) (hrun : GroundedRunner p run)
include hp hlaw hrun

theorem grounded_resolveOnThreads (cell : Nat) :
    ∀ n, Keeps (World.Grounded p t) (resolveOnThreads p run cell n)
  | 0 => .pure _
  | n + 1 => by
    have hone : Keeps (World.Grounded p t) (onThread fun at_ => resolveOrVoid p run at_ cell) :=
      grounded_onThread hp fun at_ => (groundedness hp hlaw hrun at_).resolveOrVoid cell
    exact hone.bind fun _ => (grounded_resolveOnThreads cell n).bind fun _ => .pure _

omit hlaw hrun in
theorem grounded_offerEach (f : Finding) :
    ∀ n slot, Keeps (World.Grounded p t) (offerEach f n slot)
  | 0, _ => .pure _
  | n + 1, slot => by
    have hobject : Keeps (World.Grounded p t) (objectFor f) := fun c hg =>
      .goOn (hg.of_eq hp rfl rfl (Nat.le_refl _))
    exact hobject.bind fun _ => (grounded_offerEach f n _).bind fun _ => .pure _

omit hlaw in
theorem grounded_threadLog (steps : List Step) :
    Keeps (World.Grounded p t) (threadLog run steps) :=
  ((grounded_onThread hp fun at_ => hrun at_ steps).bind fun _ => .pure _).guarded

omit hlaw in
theorem grounded_startThread (steps : List Step) :
    Keeps (World.Grounded p t) (startThread run steps) := by
  refine (grounded_threadLog hp hrun steps).unlessWaiting.bind fun a => ?_
  split <;> exact .pure _

/-- Actions that involve other threads keep results grounded too. -/
theorem covers_grounded (at_ : Scope) (a : Action) : (groundedness hp hlaw hrun at_).Covers a := by
  have hfind : ∀ diag, Keeps (World.Grounded p at_.thread) (findCell diag) :=
    (groundedness hp hlaw hrun at_).findCell
  unfold Congruence.Covers
  split
  · exact trivial
  · intro hthreaded
    cases a with
    | race diag n =>
      exact (hfind diag).bind fun cell =>
        (grounded_resolveOnThreads hp hlaw hrun cell n).bind fun _ => .pure _
    | raceCompute n f => exact (grounded_offerEach hp f n _).bind fun _ => .pure _
    | spawn steps => exact grounded_threadLog hp hrun steps
    | launch thread late steps =>
      have hlaunched : ∀ l, Keeps (World.Grounded p at_.thread)
          (modify fun w => { w with launched := (thread, l) :: w.launched } : Act Unit) :=
        fun l => grounded_quiet hp fun _ => ⟨rfl, rfl, rfl, Nat.le_refl _⟩
      rw [answer]
      split
      · exact (Keeps.pure _).bind fun l => (hlaunched l).bind fun _ => .pure _
      · exact (grounded_startThread hp hrun steps).bind fun l => (hlaunched l).bind fun _ => .pure _
    | join thread =>
      refine Keeps.get.bind fun w => ?_
      cases w.launched.lookup thread with
      | none => exact .throw _
      | some l =>
        cases l with
        | ended a => exact .pure a
        | held steps => exact grounded_threadLog hp hrun steps
    | _ => cases hthreaded

end

/-- Steps nested to any depth keep results grounded. -/
theorem grounded_performAll (hp : p.Sourced) : ∀ depth, GroundedRunner p (performAll p depth)
  | 0 => fun _ _ => .throw _
  | depth + 1 => fun at_ _ =>
    (groundedness hp (lawful_performAll p depth) (grounded_performAll hp depth) at_).performEach
      fun s _ => covers_grounded hp (lawful_performAll p depth) (grounded_performAll hp depth) at_
        s.action

/-- At each moment of a session, results are grounded. -/
theorem grounded_of_mem_moments (hp : p.Sourced) {depth : Nat} {steps : List Step}
    (hw : w ∈ p.moments depth steps) : w.Grounded p mainThread := by
  have hinitial : ∀ w ∈ Course.worlds ⟨World.initial p, []⟩, w.Grounded p mainThread := by
    intro w hw
    rw [List.mem_singleton.mp hw]
    exact World.grounded_initial p
  have hall := grounded_performAll hp depth ⟨mainThread, []⟩ steps ⟨World.initial p, []⟩
    (World.grounded_initial p)
  exact hall.mem hinitial w hw

end Session
end Deferral
