/-
# Sessions on one thread

A plain step involves no other thread and makes no diagnostic with a computation of its own. In a
session of plain steps, with binders that perform plain steps, no second thread is ever started,
and every diagnostic is known, constant or a check.

Key definitions: `Session.Course.Through`, `Session.Keeps`, `Session.World.Plain`,
`Session.Program.Plain`.
Key theorems: `Session.keepsPlain_performAll`, `Session.plain_of_mem_moments`.
-/
import Deferral.Proofs.Congruence

namespace Deferral
namespace Session

variable {P : World → Prop} {α β : Type} {c c' c'' : Course}

/-! ### What holds in every world of a course -/

/-- The course goes on to `c'` by way of worlds with the property alone. -/
def Course.Through (P : World → Prop) (c c' : Course) : Prop :=
  ∃ ws, c'.worlds = ws ++ c.worlds ∧ ∀ w ∈ ws, P w

namespace Course.Through

theorem refl (P : World → Prop) (c : Course) : c.Through P c := ⟨[], rfl, by simp⟩

theorem goOn {w : World} (h : P w) : c.Through P (c.goOn w) := ⟨[w], rfl, by simpa using h⟩

theorem trans (h : c.Through P c') (h' : c'.Through P c'') : c.Through P c'' := by
  obtain ⟨ws, hws, hP⟩ := h
  obtain ⟨ws', hws', hP'⟩ := h'
  refine ⟨ws' ++ ws, by rw [hws', hws, List.append_assoc], ?_⟩
  intro w hw
  rcases List.mem_append.mp hw with hw | hw
  · exact hP' w hw
  · exact hP w hw

theorem now (h : c.Through P c') (hc : P c.now) : P c'.now := by
  obtain ⟨ws, hws, hP⟩ := h
  cases ws with
  | nil =>
    have hnow : c'.now = c.now := (List.cons.inj hws).1
    rwa [hnow]
  | cons w ws =>
    have hnow : c'.now = w := (List.cons.inj hws).1
    rw [hnow]
    exact hP w List.mem_cons_self

theorem mem (h : c.Through P c') (hc : ∀ w ∈ c.worlds, P w) : ∀ w ∈ c'.worlds, P w := by
  obtain ⟨ws, hws, hP⟩ := h
  intro w hw
  rw [hws] at hw
  rcases List.mem_append.mp hw with hw | hw
  · exact hP w hw
  · exact hc w hw

end Course.Through

/-- From a world with the property, the action passes through such worlds alone. -/
def Keeps (P : World → Prop) (x : Act α) : Prop :=
  ∀ c : Course, P c.now → c.Through P (x.course c)

namespace Keeps

theorem pure (a : α) : Keeps P (Pure.pure a : Act α) := fun c _ => .refl P c

theorem throw (x : Interruption) : Keeps P (MonadExcept.throw x : Act α) := fun c _ => .refl P c

theorem get : Keeps P (MonadState.get : Act World) := fun c _ => .refl P c

theorem change {f : World → World} (h : ∀ w, P w → P (f w)) :
    Keeps P (modify f : Act Unit) := fun c hc => .goOn (h c.now hc)

theorem bind {x : Act α} {f : α → Act β} (hx : Keeps P x) (hf : ∀ a, Keeps P (f a)) :
    Keeps P (x >>= f) := by
  intro c hP
  have h := hx c hP
  cases hc : x c with
  | ok a c' =>
    rw [Act.course_of_ok hc] at h
    rw [Act.course_bind_of_ok hc]
    exact h.trans (hf a c' (h.now hP))
  | error e c' =>
    rw [Act.course_of_error hc] at h
    rw [Act.course_of_error (Act.bind_of_error hc)]
    exact h

theorem tryCatch {x : Act α} {handle : Interruption → Act α} (hx : Keeps P x)
    (hh : ∀ e, Keeps P (handle e)) : Keeps P (MonadExcept.tryCatch x handle : Act α) := by
  intro c hP
  have h := hx c hP
  cases hc : x c with
  | ok a c' =>
    rw [Act.course_of_ok hc] at h
    rw [Act.course_of_ok (Act.tryCatch_of_ok hc)]
    exact h
  | error e c' =>
    rw [Act.course_of_error hc] at h
    rw [Act.course, Act.tryCatch_of_error hc]
    exact h.trans (hh e c' (h.now hP))

theorem unlessWaiting {x : Act α} (hx : Keeps P x) : Keeps P (unlessWaiting x) := by
  intro c hP
  rcases Act.course_unlessWaiting x c with h | h
  · rw [h]
    exact hx c hP
  · rw [Act.course_of_ok h]
    exact .refl P c

theorem guarded {x : Act Answer} (hx : Keeps P x) : Keeps P (guarded x) := by
  refine hx.tryCatch fun e => ?_
  cases e with
  | failure f => exact .pure _
  | blocked => exact .throw _
  | tooDeep => exact .throw _
  | unknownName name => exact .throw _

/-- The property does not depend on the log. -/
theorem emit (hlog : ∀ (w : World) log, P w → P { w with log }) (at_ : Scope) (e : TraceEntry) :
    Keeps P (emit at_ e) := by
  unfold Session.emit
  split
  · exact .change fun w h => hlog w _ h
  · exact .pure _

theorem inSpan (hlog : ∀ (w : World) log, P w → P { w with log }) (at_ : Scope) (name : String)
    (fields : List (String × FieldValue)) {x : Act α} (hx : Keeps P x) :
    Keeps P (inSpan at_ name fields x) := by
  refine (emit hlog at_ _).bind fun _ => .bind (hx.tryCatch fun e => ?_) fun a => ?_
  · exact (emit hlog at_ _).bind fun _ => .throw e
  · exact (emit hlog at_ _).bind fun _ => .pure a

end Keeps

/-! ### Plain programs and worlds -/

/-- All the steps are plain. -/
def PlainSteps (steps : List Step) : Prop := ∀ s ∈ steps, s.action.isPlain = true

instance (steps : List Step) : Decidable (PlainSteps steps) :=
  inferInstanceAs (Decidable (∀ s ∈ steps, s.action.isPlain = true))

/-- Binders perform plain steps alone. -/
def Program.Plain (p : Program) : Prop := ∀ e ∈ p.entities, PlainSteps e.steps

instance (p : Program) : Decidable p.Plain :=
  inferInstanceAs (Decidable (∀ e ∈ p.entities, PlainSteps e.steps))

theorem Program.Plain.binder {p : Program} (hp : p.Plain) {e : Nat} {wrapped completed : Bool}
    {binder : Binder} (hbeh : (p.entity e).behaviour = .source wrapped completed binder) :
    PlainSteps binder.steps := by
  unfold Program.entity at hbeh
  rw [List.getD_eq_getElem?_getD] at hbeh
  cases he : p.entities[e]? with
  | none =>
    rw [he] at hbeh
    cases hbeh
  | some entity =>
    rw [he, Option.getD_some] at hbeh
    have hsteps := hp entity (List.mem_of_getElem? he)
    rwa [Entity.steps, hbeh] at hsteps

/-- It has no steps of its own. -/
def Computation.isPlain : Computation → Bool
  | .check _ _ _ _ => true
  | .constant _ => true
  | .scripted _ _ _ => false

@[simp] theorem Computation.isPlain_check (rule : CheckRule) (candidate : Nat) (ctx : Context)
    (opts : Options) : (Computation.check rule candidate ctx opts).isPlain = true := rfl

@[simp] theorem Computation.isPlain_constant (f : Finding) :
    (Computation.constant f).isPlain = true := rfl

/-- It is known, or its computation has no steps of its own. -/
def Cell.isPlain : Cell → Bool
  | .known _ => true
  | .deferred c _ _ => c.isPlain

/-- No thread has been started since `next` was the next one, and no diagnostic has a computation
with steps of its own. -/
structure World.Plain (next : Thread) (w : World) : Prop where
  alone : w.nextThread = next
  cells : ∀ c ∈ w.cells, c.isPlain = true

theorem World.plain_initial (p : Program) : (World.initial p).Plain (mainThread + 1) where
  alone := rfl
  cells c h := by cases h

namespace World.Plain

variable {next : Thread} {w w' : World}

theorem of_eq (h : w.Plain next) (hc : w'.cells = w.cells)
    (ht : w'.nextThread = w.nextThread) : w'.Plain next where
  alone := ht.trans h.alone
  cells c hm := h.cells c (hc ▸ hm)

theorem quiet (h : w.Plain next) (hq : w.Quiet w') : w'.Plain next :=
  h.of_eq hq.cells hq.nextThread

theorem addCell (h : w.Plain next) {c : Cell} (hc : c.isPlain = true) :
    (w.addCell c).Plain next where
  alone := h.alone
  cells d hd := by
    rcases List.mem_append.mp hd with hd | hd
    · exact h.cells d hd
    · rw [List.mem_singleton.mp hd]
      exact hc

theorem setCell (h : w.Plain next) (i : Nat) {c : Cell} (hc : c.isPlain = true) :
    (w.setCell i c).Plain next where
  alone := h.alone
  cells d hd := by
    rcases List.mem_or_eq_of_mem_set hd with hd | rfl
    · exact h.cells d hd
    · exact hc

/-- The computation of a diagnostic has no steps of its own. -/
theorem computation (h : w.Plain next) {i : Nat} {c : Computation} {slot : WriteOnce Finding}
    {calls : Nat} (hc : w.cells[i]? = some (.deferred c slot calls)) : c.isPlain = true :=
  h.cells _ (List.mem_of_getElem? hc)

end World.Plain

/-! ### Plain actions -/

variable {p : Program} {run : Runner} {at_ : Scope} {next : Thread}

theorem keepsPlain_quiet {f : World → World} (h : ∀ w : World, w.Quiet (f w)) :
    Keeps (World.Plain next) (modify f : Act Unit) :=
  .change fun w hw => hw.quiet (h w)

theorem World.Plain.log (w : World) (log : List Entry) (h : w.Plain next) :
    World.Plain next { w with log } :=
  h.of_eq rfl rfl

theorem keepsPlain_updateBinding (e : Nat) (f : Binding → Binding) :
    Keeps (World.Plain next) (modify fun w => w.updateBinding e f : Act Unit) :=
  .change fun _ hw => hw.of_eq rfl rfl

/-- The nested steps of binders keep worlds plain. -/
def BindersKeepPlain (p : Program) (next : Thread) (run : Runner) : Prop :=
  ∀ at_ e wrapped completed binder, (p.entity e).behaviour = .source wrapped completed binder →
    Keeps (World.Plain next) (run at_ binder.steps)

theorem keepsPlain_force (hrun : BindersKeepPlain p next run) (e : Nat) :
    Keeps (World.Plain next) (force p run at_ e) := by
  have hdemand :
      Keeps (World.Plain next) (modify fun w => { w with demands := e :: w.demands } : Act Unit) :=
    keepsPlain_quiet fun _ => ⟨rfl, rfl, rfl, rfl⟩
  refine hdemand.bind fun _ => ?_
  cases hbeh : (p.entity e).behaviour with
  | stub needs here => exact .pure _
  | bare finished => exact .pure _
  | source wrapped completed binder =>
    refine .bind .get fun w => ?_
    cases (w.bindings e).demand at_.thread with
    | done => exact .pure _
    | reentrant => exact .emit World.Plain.log at_ _
    | wait => exact .throw _
    | start =>
      have hbinder : Keeps (World.Plain next) (runBinder run at_ e binder) := by
        refine (hrun _ e wrapped completed binder hbeh).bind fun _ => .bind .get fun w => ?_
        split
        · exact .throw _
        · exact .pure _
      refine (keepsPlain_updateBinding e _).bind fun _ => .bind (hbinder.tryCatch fun x => ?_) ?_
      · exact (keepsPlain_updateBinding e _).bind fun _ => .throw x
      · exact fun _ => keepsPlain_updateBinding e _

theorem keepsPlain_memoize (cell : Nat) (o : Shared Finding) :
    Keeps (World.Plain next) (memoize cell o) := by
  intro c hP
  cases hc : c.now.cells[cell]? with
  | none =>
    have hm : memoize cell o c = .ok (o, true) c := by
      rw [memoize, Act.get_bind]
      simp only [hc]
      rfl
    rw [Act.course_of_ok hm]
    exact .refl _ c
  | some d =>
    cases d with
    | known held =>
      have hm : memoize cell o c = .ok (held, false) c := by
        rw [memoize, Act.get_bind]
        simp only [hc]
        rfl
      rw [Act.course_of_ok hm]
      exact .refl _ c
    | deferred comp slot calls =>
      rw [Act.course_of_ok (memoize_of_deferred hc o)]
      exact .goOn (hP.setCell cell (hP.computation hc))

theorem keepsPlain_keepFinding (cell : Nat) (o : Option Finding) :
    Keeps (World.Plain next) (keepFinding at_ cell o) := by
  cases o with
  | none => exact (Keeps.emit World.Plain.log at_ _).bind fun _ => .pure _
  | some f =>
    have hobject : Keeps (World.Plain next) (objectFor f) := fun c hP => .goOn (hP.of_eq rfl rfl)
    refine hobject.bind fun o => (keepsPlain_memoize cell o).bind fun r => ?_
    obtain ⟨held, won⟩ := r
    cases won with
    | false => exact (Keeps.emit World.Plain.log at_ _).bind fun _ => .pure _
    | true => exact .pure _

theorem keepsPlain_resolve?
    (hcompute : ∀ c, c.isPlain = true → ∀ call, Keeps (World.Plain next) (compute p run at_ call c))
    (cell : Nat) : Keeps (World.Plain next) (resolve? p run at_ cell) := by
  intro c hP
  cases hc : c.now.cells[cell]? with
  | none =>
    rw [Act.course_of_ok (resolve?_of_none hc)]
    exact .refl _ c
  | some d =>
  cases hd : d.result? with
  | some o =>
    rw [Act.course_of_ok (resolve?_of_result hc hd)]
    exact .refl _ c
  | none =>
  cases d with
  | known o => cases hd
  | deferred comp slot calls =>
    have hplain := hP.computation hc
    have hcount : c.Through (World.Plain next) (c.counting cell comp slot calls) :=
      .goOn (hP.setCell cell hplain)
    rw [Act.course, resolve?_of_empty hc hd]
    exact hcount.trans (((hcompute comp hplain calls).bind (keepsPlain_keepFinding cell)) _
      (hcount.now hP))

/-- What keeps worlds plain, as a property that the actions of a session keep. -/
def plainness (hrun : BindersKeepPlain p next run) (at_ : Scope) : Congruence p run run at_ where
  Rel x _ := Keeps (World.Plain next) x
  Admits c := c.isPlain = true
  alike := .refl p
  pure_rel := .pure
  throw_rel _ := .throw _
  bind_rel h h' := h.bind h'
  emit_rel := .emit World.Plain.log at_
  inSpan_rel name fields h := h.inSpan World.Plain.log at_ name fields
  view_rel := .bind .get fun _ => .pure _
  visible_rel _ := .bind .get fun _ => .pure _
  force_rel e := keepsPlain_force hrun e
  check_admitted := Computation.isPlain_check
  constant_admitted := Computation.isPlain_constant
  get_rel := .get
  quiet_rel := keepsPlain_quiet
  guarded_rel h := h.guarded
  known_rel _ := .change fun _ hw => hw.addCell rfl
  deferred_rel h := .change fun _ hw => hw.addCell h
  push_rel _ _ := .change fun _ hw => hw.of_eq rfl rfl
  nested_rel h := by cases h
  resolve_rel h cell := keepsPlain_resolve? h cell

/-- Plain steps keep worlds plain, however deep they nest. -/
theorem keepsPlain_performAll (hp : p.Plain) : ∀ (depth : Nat) (at_ : Scope) {steps : List Step},
    PlainSteps steps → Keeps (World.Plain next) (performAll p depth at_ steps)
  | 0, _, _, _ => .throw _
  | depth + 1, at_, steps, hs => by
    have hrun : BindersKeepPlain p next (performAll p depth) := fun at_ _ _ _ _ hbeh =>
      keepsPlain_performAll hp depth at_ (hp.binder hbeh)
    exact (plainness hrun at_).performEach fun s hm => Congruence.covers_of_plain _ (hs s hm)

theorem plain_of_mem_moments (hp : p.Plain) {steps : List Step} (hs : PlainSteps steps)
    {depth : Nat} {w : World} (hw : w ∈ p.moments depth steps) : w.Plain (mainThread + 1) := by
  have hinitial : ∀ w ∈ Course.worlds ⟨World.initial p, []⟩, w.Plain (mainThread + 1) := by
    intro w hw
    rw [List.mem_singleton.mp hw]
    exact World.plain_initial p
  have hall := keepsPlain_performAll hp depth ⟨mainThread, []⟩ hs ⟨World.initial p, []⟩
    (World.plain_initial p)
  exact hall.mem hinitial w hw

end Session
end Deferral
