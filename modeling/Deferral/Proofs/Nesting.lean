/-
# Nested resolution ends

Binders force entities, resolve diagnostics and walk bags, and so start one another's runs, in
cycles too. A binder is started only for an entity that is not started, which is in progress from
then on until the run ends. So the runs that are active at one moment belong to different entities,
and no more of them are nested than there were unfinished entities in the beginning. Whatever is
nested below this bound ends, and a larger bound changes nothing.

Key definitions: `Session.performApart`, `Session.Ends`, `Session.Program.unfinished`,
`Session.Room`, `Session.Scope.Apart`, `Session.Nests`.
Key theorems: `Session.Room.started`, `Session.nests_force`, `Session.nests_answer`,
`Session.room_of_mem_moments`, `Session.nested_ends`.
-/
import Mathlib
import Deferral.Proofs.Plain
import Deferral.Proofs.Forced

namespace Deferral
namespace Session

variable {p : Program} {at_ : Scope} {α β : Type} {c c' : Course} {w w' : World}

/-! ### Runs of binders that are apart -/

/-- Performs steps as `performAll` does, but breaks off where they are nested in two runs of one
binder. What steps are nested in, their scope says: the active runs of binders, outermost first. -/
def performApart (p : Program) : Nat → Runner
  | 0, _, _ => throw .tooDeep
  | depth + 1, at_, steps =>
    if at_.within.Nodup then performEach p (performApart p depth) at_ steps else throw .tooDeep

/-- A call may end with it: with a failure, or with a name that nothing has, but not because it
waits or is nested too deep. -/
def Interruption.isOutcome : Interruption → Bool
  | .failure _ => true
  | .blocked => false
  | .tooDeep => false
  | .unknownName _ => true

/-- The result is an answer, or an interruption that a call may end with. -/
def Ends : EStateM.Result Interruption Course α → Prop
  | .ok _ _ => True
  | .error x _ => x.isOutcome = true

/-- The number of entities that are not finished. -/
def Program.unfinished (p : Program) (w : World) : Nat :=
  (List.range p.entities.length).countP fun e => !w.finished p e

/-- A binder of the entity at a position can be started. -/
def World.startable (w : World) (p : Program) (e : Nat) : Bool :=
  match (p.entity e).behaviour with
  | .source _ _ _ => (w.bindings e).completion == .notStarted
  | .stub _ _ => false
  | .bare _ => false

/-- The number of entities whose binder can be started. -/
def Program.idle (p : Program) (w : World) : Nat :=
  (List.range p.entities.length).countP (w.startable p)

/-! ### Counting what can be started -/

theorem World.startable_iff {e : Nat} {wrapped completed : Bool} {binder : Binder}
    (hbeh : (p.entity e).behaviour = .source wrapped completed binder) :
    w.startable p e = true ↔ (w.bindings e).completion = .notStarted := by
  simp only [World.startable, hbeh, beq_iff_eq]

theorem World.completion_of_startable {e : Nat} (h : w.startable p e = true) :
    (w.bindings e).completion = .notStarted := by
  unfold World.startable at h
  split at h
  · exact beq_iff_eq.mp h
  · cases h
  · cases h

/-- What can be started is not finished. -/
theorem Program.idle_le_unfinished (p : Program) (w : World) : p.idle w ≤ p.unfinished w := by
  apply List.countP_mono_left
  intro e _ h
  unfold World.startable at h
  unfold World.finished
  cases hbeh : (p.entity e).behaviour with
  | source wrapped completed binder =>
    simp only [hbeh] at h
    simp [Binding.isFinished, beq_iff_eq.mp h, Completion.data?]
  | stub needs here =>
    rw [hbeh] at h
    cases h
  | bare finished =>
    rw [hbeh] at h
    cases h

/-- What is not started later was not started before. -/
theorem World.Later.notStarted (hl : w.Later w') {e : Nat}
    (h : (w'.bindings e).completion = .notStarted) : (w.bindings e).completion = .notStarted := by
  by_contra hne
  rw [(hl.bindings e).eq_of_ne hne] at h
  exact hne h

theorem World.Later.idle_le (hl : w.Later w') : p.idle w' ≤ p.idle w := by
  apply List.countP_mono_left
  intro e _ h
  unfold World.startable at h ⊢
  cases hbeh : (p.entity e).behaviour with
  | source wrapped completed binder =>
    simp only [hbeh, beq_iff_eq] at h ⊢
    exact hl.notStarted h
  | stub needs here =>
    rw [hbeh] at h
    cases h
  | bare finished =>
    rw [hbeh] at h
    cases h

theorem countP_lt_of_mem {ε : Type} {P Q : ε → Bool} {a : ε} : ∀ {l : List ε}, a ∈ l →
    (∀ b, Q b = true → P b = true) → P a = true → Q a = false → l.countP Q < l.countP P
  | b :: l, hmem, himp, hP, hQ => by
    have hle : l.countP Q ≤ l.countP P := List.countP_mono_left fun x _ => himp x
    rw [List.countP_cons, List.countP_cons]
    rcases List.mem_cons.mp hmem with rfl | hmem
    · simp only [hP, hQ, Bool.false_eq_true, if_true, if_false]
      omega
    · have ih := countP_lt_of_mem hmem himp hP hQ
      cases hQb : Q b with
      | false =>
        simp only [Bool.false_eq_true, if_false]
        omega
      | true =>
        rw [himp b hQb]
        simpa using ih

/-- A binder that is started can not be started again. -/
theorem idle_started {e : Nat} {wrapped completed : Bool} {binder : Binder} {t : Thread}
    (hbeh : (p.entity e).behaviour = .source wrapped completed binder)
    (hidle : (w.bindings e).completion = .notStarted) :
    p.idle (w.updateBinding e (·.start t)) < p.idle w := by
  have hsrc : p.IsSource e := ⟨wrapped, completed, binder, hbeh⟩
  have hmem : e ∈ List.range p.entities.length := List.mem_range.mpr hsrc.lt_length
  refine countP_lt_of_mem hmem (fun d hd => ?_) ((World.startable_iff hbeh).mpr hidle) ?_
  · by_cases hde : d = e
    · rw [hde]
      exact (World.startable_iff hbeh).mpr hidle
    · unfold World.startable at hd ⊢
      rwa [World.updateBinding_ne w hde] at hd
  · rw [Bool.eq_false_iff]
    intro h
    have hstarted := World.completion_of_startable h
    rw [World.updateBinding_self] at hstarted
    cases hstarted

/-! ### Scopes -/

theorem binderName_injective {e d : Nat} (h : s!"e{e}" = s!"e{d}") : e = d := by
  have happend : "e" ++ Nat.repr e = "e" ++ Nat.repr d := h
  have hlist := congrArg String.toList happend
  rw [String.toList_append, String.toList_append, List.append_cancel_left_eq] at hlist
  exact Nat.repr_inj.mp (String.toList_injective hlist)

/-- What is true of a thread and of a world in which it goes on: nobody else is completing anything,
no diagnostic has a computation with steps of its own, and no more than `limit` binders can be
started. -/
structure Room (p : Program) (at_ : Scope) (limit : Nat) (w : World) : Prop where
  sound : w.Sound p
  hosts : w.Hosts at_.thread
  owner : ∀ e t, (w.bindings e).completion = .inProgress t → t = at_.thread
  cells : ∀ d ∈ w.cells, d.isPlain = true
  idle : p.idle w ≤ limit

/-- What the steps are nested in is all different, and where it is a run of a binder, that can not
be started. -/
structure Scope.Apart (at_ : Scope) (w : World) : Prop where
  distinct : at_.within.Nodup
  active : ∀ e, (w.bindings e).completion = .notStarted → s!"e{e}" ∉ at_.within

theorem Room.plain {limit : Nat} (h : Room p at_ limit w) : w.Plain w.nextThread := ⟨rfl, h.cells⟩

theorem Room.later {limit : Nat} (h : Room p at_ limit w) (hl : w.Later w') (hs : w'.Sound p)
    (hc : ∀ d ∈ w'.cells, d.isPlain = true) : Room p at_ limit w' where
  sound := hs
  hosts := h.hosts.later hl
  owner e t ht := h.owner e t (((hl.bindings e).inProgress_iff t).mp ht)
  cells := hc
  idle := Nat.le_trans hl.idle_le h.idle

theorem Scope.Apart.later (h : at_.Apart w) (hl : w.Later w') : at_.Apart w' where
  distinct := h.distinct
  active e he := h.active e (hl.notStarted he)

/-- Inside a binder that has been started there is room for one binder less. -/
theorem Room.started {limit e : Nat} {wrapped completed : Bool} {binder : Binder}
    (h : Room p at_ limit w) (hbeh : (p.entity e).behaviour = .source wrapped completed binder)
    (hidle : (w.bindings e).completion = .notStarted) :
    ∃ rest, limit = rest + 1 ∧
      Room p (at_.inside s!"e{e}") rest (w.updateBinding e (·.start at_.thread)) := by
  have hlt := idle_started (t := at_.thread) hbeh hidle
  have hlimit := h.idle
  obtain ⟨rest, rfl⟩ : ∃ rest, limit = rest + 1 := ⟨limit - 1, by omega⟩
  refine ⟨rest, rfl, ?_⟩
  exact
    { sound := by
        refine h.sound.updateBinding e (fun d hd => ?_) fun t ht => ?_
        · simp [Binding.start] at hd
        · obtain rfl : at_.thread = t := by simpa [Binding.start] using ht
          exact h.hosts
      hosts := h.hosts
      owner := fun d t ht => by
        by_cases hde : d = e
        · subst hde
          rw [World.updateBinding_self] at ht
          cases ht
          rfl
        · rw [World.updateBinding_ne w hde] at ht
          exact h.owner d t ht
      cells := h.cells
      idle := by omega }

/-- Inside a binder that has been started, runs are still apart. -/
theorem Scope.Apart.started {e : Nat} (h : at_.Apart w)
    (hidle : (w.bindings e).completion = .notStarted) :
    (at_.inside s!"e{e}").Apart (w.updateBinding e (·.start at_.thread)) where
  distinct := by
    show (at_.within ++ [s!"e{e}"]).Nodup
    rw [List.nodup_append]
    refine ⟨h.distinct, List.nodup_singleton _, ?_⟩
    intro name hname other hother heq
    rw [List.mem_singleton.mp hother] at heq
    exact h.active e hidle (heq ▸ hname)
  active d hd hmem := by
    have hne : d ≠ e := by
      rintro rfl
      rw [World.updateBinding_self] at hd
      cases hd
    rw [World.updateBinding_ne w hne] at hd
    rcases List.mem_append.mp hmem with hmem | hmem
    · exact h.active d hd hmem
    · exact hne (binderName_injective (List.mem_singleton.mp hmem))

/-! ### Actions that end -/

/-- Where there is room for `limit` binders the first action ends, and where runs are apart as well
both actions come to the same. -/
structure Nests (p : Program) (at_ : Scope) (limit : Nat) (x y : Act α) : Prop where
  lawful : Lawful p at_.thread x
  plain : ∀ next, Keeps (World.Plain next) x
  ends : ∀ c : Course, Room p at_ limit c.now → Ends (x c)
  same : ∀ c : Course, Room p at_ limit c.now → at_.Apart c.now → x c = y c

namespace Nests

variable {limit : Nat}

theorem pure (a : α) : Nests p at_ limit (Pure.pure a : Act α) (Pure.pure a) where
  lawful := .pure a
  plain _ := .pure a
  ends _ _ := trivial
  same _ _ _ := rfl

theorem throw {x : Interruption} (h : x.isOpen = true) :
    Nests p at_ limit (MonadExcept.throw x : Act α) (MonadExcept.throw x) where
  lawful := .throw x
  plain _ := .throw x
  ends _ _ := by
    cases x with
    | failure f => rfl
    | unknownName name => rfl
    | blocked => cases h
    | tooDeep => cases h
  same _ _ _ := rfl

theorem get : Nests p at_ limit (MonadState.get : Act World) MonadState.get where
  lawful := .get
  plain _ := .get
  ends _ _ := trivial
  same _ _ _ := rfl

theorem change {f : World → World} (hl : Lawful p at_.thread (modify f : Act Unit))
    (hp : ∀ next, Keeps (World.Plain next) (modify f : Act Unit)) :
    Nests p at_ limit (modify f : Act Unit) (modify f) where
  lawful := hl
  plain := hp
  ends _ _ := trivial
  same _ _ _ := rfl

theorem room {x y : Act α} (h : Nests p at_ limit x y) {a : α} (hc : Room p at_ limit c.now)
    (hx : x c = .ok a c') : Room p at_ limit c'.now := by
  have hpass := h.lawful.ok hc.sound hc.hosts hx
  have hplain := h.plain c.now.nextThread c hc.plain
  rw [Act.course_of_ok hx] at hplain
  exact hc.later hpass.later (hpass.sound hc.sound) (hplain.now hc.plain).cells

theorem later {x y : Act α} (h : Nests p at_ limit x y) {a : α} (hc : Room p at_ limit c.now)
    (hx : x c = .ok a c') : c.now.Later c'.now :=
  (h.lawful.ok hc.sound hc.hosts hx).later

theorem bind {x y : Act α} {f g : α → Act β} (hx : Nests p at_ limit x y)
    (hf : ∀ a, Nests p at_ limit (f a) (g a)) : Nests p at_ limit (x >>= f) (y >>= g) where
  lawful := hx.lawful.bind fun a => (hf a).lawful
  plain next := (hx.plain next).bind fun a => (hf a).plain next
  ends c hroom := by
    have hends := hx.ends c hroom
    cases hc : x c with
    | ok a c' =>
      rw [Act.bind_of_ok hc]
      exact (hf a).ends c' (hx.room hroom hc)
    | error e c' =>
      rw [Act.bind_of_error hc]
      rwa [hc] at hends
  same c hroom hapart := by
    have heq := hx.same c hroom hapart
    cases hc : x c with
    | ok a c' =>
      rw [Act.bind_of_ok hc, Act.bind_of_ok (heq.symm.trans hc)]
      exact (hf a).same c' (hx.room hroom hc) (hapart.later (hx.later hroom hc))
    | error e c' => rw [Act.bind_of_error hc, Act.bind_of_error (heq.symm.trans hc)]

theorem guarded {x y : Act Answer} (h : Nests p at_ limit x y) :
    Nests p at_ limit (guarded x) (guarded y) where
  lawful := lawful_guarded h.lawful
  plain next := (h.plain next).guarded
  ends c hroom := by
    have hends := h.ends c hroom
    unfold Session.guarded
    cases hc : x c with
    | ok a c' =>
      rw [Act.tryCatch_of_ok hc]
      trivial
    | error e c' =>
      rw [Act.tryCatch_of_error hc]
      rw [hc] at hends
      cases e with
      | failure f => trivial
      | unknownName name => exact hends
      | blocked => exact hends
      | tooDeep => exact hends
  same c hroom hapart := by
    have heq := h.same c hroom hapart
    unfold Session.guarded
    cases hc : x c with
    | ok a c' => rw [Act.tryCatch_of_ok hc, Act.tryCatch_of_ok (heq.symm.trans hc)]
    | error e c' => rw [Act.tryCatch_of_error hc, Act.tryCatch_of_error (heq.symm.trans hc)]

theorem emit (e : TraceEntry) : Nests p at_ limit (emit at_ e) (emit at_ e) where
  lawful := lawful_emit at_ e
  plain _ := .emit World.Plain.log at_ e
  ends c _ := by
    obtain ⟨c', log, h, -⟩ := emit_runs at_ e c
    rw [h]
    trivial
  same _ _ _ := rfl

theorem inSpan {x y : Act α} (name : String) (fields : List (String × FieldValue))
    (h : Nests p at_ limit x y) :
    Nests p at_ limit (inSpan at_ name fields x) (inSpan at_ name fields y) where
  lawful := lawful_inSpan at_ name fields h.lawful
  plain next := (h.plain next).inSpan World.Plain.log at_ name fields
  ends c hroom := by
    obtain ⟨c₁, log, h₁, -⟩ := emit_runs at_ ⟨.span, name, fields⟩ c
    have hends := h.ends c₁ ((Nests.emit _).room hroom h₁)
    cases hc : x c₁ with
    | ok a c₂ =>
      obtain ⟨c₃, log, h₃, -⟩ := emit_runs at_ ⟨.exit, name, []⟩ c₂
      rw [inSpan_of_ok h₁ hc h₃]
      trivial
    | error e c₂ =>
      obtain ⟨c₃, log, h₃, -⟩ := emit_runs at_ ⟨.exit, name, []⟩ c₂
      rw [inSpan_of_error h₁ hc h₃]
      rwa [hc] at hends
  same c hroom hapart := by
    obtain ⟨c₁, log, h₁, -⟩ := emit_runs at_ ⟨.span, name, fields⟩ c
    have hfirst : Nests p at_ limit (Session.emit at_ ⟨.span, name, fields⟩)
        (Session.emit at_ ⟨.span, name, fields⟩) := .emit _
    have heq := h.same c₁ (hfirst.room hroom h₁) (hapart.later (hfirst.later hroom h₁))
    cases hc : x c₁ with
    | ok a c₂ =>
      obtain ⟨c₃, log, h₃, -⟩ := emit_runs at_ ⟨.exit, name, []⟩ c₂
      rw [inSpan_of_ok h₁ hc h₃, inSpan_of_ok h₁ (heq.symm.trans hc) h₃]
    | error e c₂ =>
      obtain ⟨c₃, log, h₃, -⟩ := emit_runs at_ ⟨.exit, name, []⟩ c₂
      rw [inSpan_of_error h₁ hc h₃, inSpan_of_error h₁ (heq.symm.trans hc) h₃]

end Nests

/-! ### Binders -/

section

variable {run run' : Runner} {limit : Nat}

/-- The nested steps of a binder, seen from inside it, end and come to the same in both ways as long
as there is room for one binder less. -/
def BindersNest (p : Program) (at_ : Scope) (limit : Nat) (run run' : Runner) : Prop :=
  ∀ e wrapped completed binder, (p.entity e).behaviour = .source wrapped completed binder →
    ∀ rest, limit = rest + 1 →
      Nests p (at_.inside s!"e{e}") rest (run (at_.inside s!"e{e}") binder.steps)
        (run' (at_.inside s!"e{e}") binder.steps)

theorem ends_runBinder {e : Nat} {binder : Binder}
    (h : Ends (run (at_.inside s!"e{e}") binder.steps c)) :
    Ends (runBinder run at_ e binder c) := by
  unfold runBinder
  cases hc : run (at_.inside s!"e{e}") binder.steps c with
  | ok a c' =>
    rw [Act.bind_of_ok hc, Act.get_bind]
    split
    · exact rfl
    · exact trivial
  | error x c' =>
    rw [hc] at h
    rw [Act.bind_of_error hc]
    exact h

theorem runBinder_same {e : Nat} {binder : Binder}
    (h : run (at_.inside s!"e{e}") binder.steps c = run' (at_.inside s!"e{e}") binder.steps c) :
    runBinder run at_ e binder c = runBinder run' at_ e binder c := by
  unfold runBinder
  cases hc : run (at_.inside s!"e{e}") binder.steps c with
  | ok a c' => rw [Act.bind_of_ok hc, Act.bind_of_ok (h.symm.trans hc)]
  | error x c' => rw [Act.bind_of_error hc, Act.bind_of_error (h.symm.trans hc)]

theorem Room.demanding {e : Nat} (h : Room p at_ limit c.now) :
    Room p at_ limit (c.demanding e).now :=
  h.later (.of_eq rfl rfl rfl (Nat.le_refl _)) (h.sound.of_eq rfl rfl (Nat.le_refl _)) h.cells

/-- Forcing an entity ends where the steps of its binder do. -/
theorem ends_force (h : BindersNest p at_ limit run run') (e : Nat)
    (hroom : Room p at_ limit c.now) : Ends (force p run at_ e c) := by
  cases hbeh : (p.entity e).behaviour with
  | stub needs here =>
    rw [force_of_no_binder (congrArg Behaviour.isSource hbeh)]
    trivial
  | bare finished =>
    rw [force_of_no_binder (congrArg Behaviour.isSource hbeh)]
    trivial
  | source wrapped completed binder =>
  rw [force_source hbeh]
  cases hd : (c.now.bindings e).demand at_.thread with
  | done => trivial
  | reentrant =>
    obtain ⟨c', log, h', -⟩ := emit_runs at_
      ⟨.event, "re-entrant attribute completion, leaving incomplete", []⟩ (c.demanding e)
    dsimp only
    rw [h']
    trivial
  | wait =>
    obtain ⟨t, hne, ht⟩ := Binding.demand_wait_iff.mp hd
    exact absurd (hroom.owner e t ht) hne
  | start =>
    have hdemanding : Room p at_ limit (c.demanding e).now := hroom.demanding
    obtain ⟨rest, rfl, hinner⟩ := hdemanding.started hbeh (Binding.demand_start_iff.mp hd)
    have hsteps := h e wrapped completed binder hbeh rest rfl
    have hends : Ends (runBinder run at_ e binder ((c.demanding e).started e at_.thread)) :=
      ends_runBinder (hsteps.ends _ hinner)
    dsimp only
    cases hc : runBinder run at_ e binder ((c.demanding e).started e at_.thread) with
    | ok a c' =>
      rw [complete_of_ok hc]
      trivial
    | error x c' =>
      rw [complete_of_error hc]
      rwa [hc] at hends

/-- Where runs are apart, forcing an entity comes to the same in both ways. -/
theorem force_same (h : BindersNest p at_ limit run run') (e : Nat)
    (hroom : Room p at_ limit c.now) (hapart : at_.Apart c.now) :
    force p run at_ e c = force p run' at_ e c := by
  cases hbeh : (p.entity e).behaviour with
  | stub needs here =>
    have hnone := congrArg Behaviour.isSource hbeh
    rw [force_of_no_binder hnone, force_of_no_binder hnone]
  | bare finished =>
    have hnone := congrArg Behaviour.isSource hbeh
    rw [force_of_no_binder hnone, force_of_no_binder hnone]
  | source wrapped completed binder =>
  rw [force_source hbeh, force_source hbeh]
  cases hd : (c.now.bindings e).demand at_.thread with
  | done => rfl
  | reentrant => rfl
  | wait => rfl
  | start =>
    have hidle := Binding.demand_start_iff.mp hd
    have hdemanding : Room p at_ limit (c.demanding e).now := hroom.demanding
    have hactive : at_.Apart (c.demanding e).now := ⟨hapart.distinct, hapart.active⟩
    obtain ⟨rest, rfl, hinner⟩ := hdemanding.started hbeh hidle
    have hsteps := h e wrapped completed binder hbeh rest rfl
    have hbinder : runBinder run at_ e binder ((c.demanding e).started e at_.thread) =
        runBinder run' at_ e binder ((c.demanding e).started e at_.thread) :=
      runBinder_same (hsteps.same _ hinner (hactive.started hidle))
    dsimp only
    cases hc : runBinder run at_ e binder ((c.demanding e).started e at_.thread) with
    | ok a c' => rw [complete_of_ok hc, complete_of_ok (hbinder.symm.trans hc)]
    | error x c' => rw [complete_of_error hc, complete_of_error (hbinder.symm.trans hc)]

theorem nests_force (hrun : LawfulRunner p run) (hplain : ∀ next, BindersKeepPlain p next run)
    (h : BindersNest p at_ limit run run') (e : Nat) :
    Nests p at_ limit (force p run at_ e) (force p run' at_ e) where
  lawful := lawful_force hrun e
  plain next := keepsPlain_force (hplain next) e
  ends _ hroom := ends_force h e hroom
  same _ hroom hapart := force_same h e hroom hapart

theorem Room.counting {cell calls : Nat} {comp : Computation} {slot : WriteOnce Finding}
    (h : Room p at_ limit c.now)
    (hc : c.now.cells[cell]? = some (.deferred comp slot calls)) :
    Room p at_ limit (c.counting cell comp slot calls).now :=
  have hcount := passage_count h.sound hc
  have hcell : (Cell.deferred comp slot (calls + 1)).isPlain = true := h.plain.computation hc
  h.later hcount.later (hcount.sound h.sound) (h.plain.setCell cell hcell).cells

/-- Resolving a diagnostic ends, and comes to the same in both ways, if its computation does. -/
theorem nests_resolve? (hrun : LawfulRunner p run)
    (h : ∀ c, c.isPlain = true → ∀ call,
      Nests p at_ limit (compute p run at_ call c) (compute p run' at_ call c)) (cell : Nat) :
    Nests p at_ limit (resolve? p run at_ cell) (resolve? p run' at_ cell) where
  lawful := lawful_resolve? hrun cell
  plain next := keepsPlain_resolve? (fun c hcomp call => (h c hcomp call).plain next) cell
  ends c hroom := by
    cases hc : c.now.cells[cell]? with
    | none =>
      rw [resolve?_of_none hc]
      trivial
    | some d =>
    cases hd : d.result? with
    | some o =>
      rw [resolve?_of_result hc hd]
      trivial
    | none =>
    cases d with
    | known o => cases hd
    | deferred comp slot calls =>
      rw [resolve?_of_empty hc hd]
      have hends := (h comp (hroom.plain.computation hc) calls).ends _ (hroom.counting hc)
      cases hr : compute p run at_ calls comp (c.counting cell comp slot calls) with
      | ok a c' =>
        rw [Act.bind_of_ok hr]
        obtain ⟨o, c'', hkeep⟩ := keepFinding_ok at_ cell a c'
        rw [hkeep]
        trivial
      | error x c' =>
        rw [Act.bind_of_error hr]
        rwa [hr] at hends
  same c hroom hapart := by
    cases hc : c.now.cells[cell]? with
    | none => rw [resolve?_of_none hc, resolve?_of_none hc]
    | some d =>
    cases hd : d.result? with
    | some o => rw [resolve?_of_result hc hd, resolve?_of_result hc hd]
    | none =>
    cases d with
    | known o => cases hd
    | deferred comp slot calls =>
      rw [resolve?_of_empty hc hd, resolve?_of_empty hc hd]
      have hcounted : at_.Apart (c.counting cell comp slot calls).now :=
        ⟨hapart.distinct, hapart.active⟩
      have heq := (h comp (hroom.plain.computation hc) calls).same _ (hroom.counting hc) hcounted
      cases hr : compute p run at_ calls comp (c.counting cell comp slot calls) with
      | ok a c' => rw [Act.bind_of_ok hr, Act.bind_of_ok (heq.symm.trans hr)]
      | error x c' => rw [Act.bind_of_error hr, Act.bind_of_error (heq.symm.trans hr)]

/-- What ends in both ways, as a relation that the actions of a session keep. -/
def nesting (hrun : LawfulRunner p run) (hplain : ∀ next, BindersKeepPlain p next run)
    (h : BindersNest p at_ limit run run') : Congruence p run run' at_ where
  Rel x y := Nests p at_ limit x y
  Admits c := c.isPlain = true
  alike := .refl p
  pure_rel := .pure
  throw_rel := .throw
  bind_rel hx hf := hx.bind hf
  emit_rel := .emit
  inSpan_rel name fields hx := hx.inSpan name fields
  view_rel := .bind .get fun _ => .pure _
  visible_rel _ := .bind .get fun _ => .pure _
  force_rel := nests_force hrun hplain h
  check_admitted := Computation.isPlain_check
  constant_admitted := Computation.isPlain_constant
  get_rel := .get
  quiet_rel hq := .change (.change_of_agrees fun w => (hq w).agrees) fun _ => keepsPlain_quiet hq
  guarded_rel hx := hx.guarded
  known_rel o := .change (.change fun w hs _ => ⟨hs.addCell trivial, World.later_addCell w _⟩)
    fun _ => .change fun _ hw => hw.addCell rfl
  deferred_rel {c} hc := .change
    (.change fun w hs _ => ⟨hs.addCell (Cell.right_of_empty p c), World.later_addCell w _⟩)
    fun _ => .change fun _ hw => hw.addCell hc
  push_rel bag cell := .change (lawful_push bag cell) fun _ =>
    .change fun _ hw => hw.of_eq rfl rfl
  nested_rel hc := by cases hc
  resolve_rel hc cell := nests_resolve? hrun hc cell

end

/-! ### Any depth that suffices -/

theorem bindersKeepPlain_performAll (hp : p.Plain) (depth : Nat) (next : Thread) :
    BindersKeepPlain p next (performAll p depth) :=
  fun at_ _ _ _ _ hbeh => keepsPlain_performAll hp depth at_ (hp.binder hbeh)

/-- Where there is room for `limit` binders, a depth of `limit` suffices for the steps of binders,
and more changes nothing. -/
theorem bindersNest_performAll (hp : p.Plain) : ∀ {limit depth : Nat}, limit ≤ depth →
    ∀ at_, BindersNest p at_ limit (performAll p limit) (performApart p depth) := by
  intro limit
  induction limit with
  | zero =>
    intro depth _ at_ e wrapped completed binder _ rest hrest
    cases hrest
  | succ limit ih =>
    intro depth hle at_ e wrapped completed binder hbeh rest hrest
    obtain ⟨depth, rfl⟩ : ∃ d, depth = d + 1 := ⟨depth - 1, by omega⟩
    cases hrest
    have hbinders := ih (Nat.le_of_succ_le_succ hle) (at_.inside s!"e{e}")
    have hsteps := (nesting (lawful_performAll p limit) (bindersKeepPlain_performAll hp limit)
      hbinders).performEach fun s hm => Congruence.covers_of_plain _ (hp.binder hbeh s hm)
    exact
      { lawful := hsteps.lawful
        plain := hsteps.plain
        ends := hsteps.ends
        same := fun c hroom hapart => by
          rw [performApart, if_pos hapart.distinct]
          exact hsteps.same c hroom hapart }

/-- What ends where there is room for `limit` binders: whatever may be nested `limit` deep. -/
def nestingWithin (hp : p.Plain) {limit depth : Nat} (hle : limit ≤ depth) (at_ : Scope) :
    Congruence p (performAll p limit) (performApart p depth) at_ :=
  nesting (lawful_performAll p limit) (bindersKeepPlain_performAll hp limit)
    (bindersNest_performAll hp hle at_)

theorem nests_answer (hp : p.Plain) {limit depth : Nat} (hle : limit ≤ depth) {a : Action}
    (ha : a.isPlain = true) :
    Nests p at_ limit (answer p (performAll p limit) at_ a)
      (answer p (performApart p depth) at_ a) :=
  (nestingWithin hp hle at_).answer (Congruence.covers_of_plain _ ha)

theorem apart_topLevel (w : World) : Scope.Apart ⟨mainThread, []⟩ w where
  distinct := List.nodup_nil
  active _ _ := List.not_mem_nil

/-- At the moments of a session of plain steps there is room on its thread, whatever the steps are
nested in. -/
theorem room_of_mem_moments (hp : p.Plain) {steps : List Step} (hs : PlainSteps steps)
    {depth limit : Nat} (hw : w ∈ p.moments depth steps) (hle : p.unfinished w ≤ limit)
    (hmain : at_.thread = mainThread) : Room p at_ limit w := by
  have hsound := sound_of_mem_moments hw
  have hplain := plain_of_mem_moments hp hs hw
  have hhosts : ∀ t, w.Hosts t ↔ t = at_.thread := fun t => by
    rw [World.hosts_iff_of_single hplain.alone, hmain]
  exact
    { sound := hsound
      hosts := (hhosts _).mpr rfl
      owner := fun e t ht => (hhosts t).mp (hsound.owner e t ht)
      cells := hplain.cells
      idle := Nat.le_trans (p.idle_le_unfinished w) hle }

/-- **Nested resolution ends.** From each moment of a session of plain steps, a plain action ends,
whatever binders it starts and however they start one another: at a depth of the number of
unfinished entities nothing is nested too deep, nothing waits, and more depth changes nothing. Nor
does it change anything to forbid that a binder is nested in a run of itself. -/
theorem nested_ends (hp : p.Plain) {steps : List Step} (hs : PlainSteps steps) {depth : Nat}
    (hc : c.now ∈ p.moments depth steps) {a : Action} (ha : a.isPlain = true) :
    ∃ result, Ends result ∧ ∀ limit, p.unfinished c.now ≤ limit →
      answer p (performAll p limit) ⟨mainThread, []⟩ a c = result ∧
        answer p (performApart p limit) ⟨mainThread, []⟩ a c = result := by
  have hapart := apart_topLevel c.now
  have hroom : Room p ⟨mainThread, []⟩ (p.unfinished c.now) c.now :=
    room_of_mem_moments hp hs hc (Nat.le_refl _) rfl
  refine ⟨answer p (performAll p (p.unfinished c.now)) ⟨mainThread, []⟩ a c,
    (nests_answer hp (Nat.le_refl _) ha).ends c hroom, fun limit hle => ?_⟩
  have hleast : answer p (performApart p limit) ⟨mainThread, []⟩ a c =
      answer p (performAll p (p.unfinished c.now)) ⟨mainThread, []⟩ a c :=
    ((nests_answer hp hle ha).same c hroom hapart).symm
  have hlimit : answer p (performAll p limit) ⟨mainThread, []⟩ a c =
      answer p (performApart p limit) ⟨mainThread, []⟩ a c :=
    (nests_answer hp (Nat.le_refl limit) ha).same c (room_of_mem_moments hp hs hc hle rfl) hapart
  exact ⟨hlimit.trans hleast, hleast⟩

/-- Two entities whose binders force each other, the second of which fails at first. -/
def facing : Program where
  entities :=
    [⟨0, "Left", .type, none, .plain, .source false false ⟨[.guarded (.force 1)], 0⟩⟩,
      ⟨1, "Right", .type, none, .plain, .source false false ⟨[.guarded (.force 0)], 1⟩⟩]

/-- Forcing the first entity ends at a depth of two, and is nested too deep for a depth of one. -/
theorem nested_ends_facing :
    facing.Plain ∧ PlainSteps [] ∧ World.initial facing ∈ facing.moments 1 [] ∧
      facing.unfinished (World.initial facing) = 2 ∧
      (∃ result, Ends result ∧ ∀ limit, 2 ≤ limit →
        answer facing (performAll facing limit) ⟨mainThread, []⟩ (.force 0)
            ⟨World.initial facing, []⟩ = result ∧
          answer facing (performApart facing limit) ⟨mainThread, []⟩ (.force 0)
            ⟨World.initial facing, []⟩ = result) ∧
      ∃ c', answer facing (performAll facing 1) ⟨mainThread, []⟩ (.force 0)
        ⟨World.initial facing, []⟩ = .error .tooDeep c' := by
  have hplain : facing.Plain := by decide
  have hsteps : PlainSteps [] := by decide
  have hc : World.initial facing ∈ facing.moments 1 [] := List.mem_singleton_self _
  have hn : facing.unfinished (World.initial facing) = 2 := by decide
  have hdeep : (answer facing (performAll facing 1) ⟨mainThread, []⟩ (.force 0)).interruption?
      ⟨World.initial facing, []⟩ = some .tooDeep := by cbv
  refine ⟨hplain, hsteps, hc, hn, ?_, _, Act.eq_error_of_interruption? hdeep⟩
  have hends := nested_ends (c := ⟨World.initial facing, []⟩) hplain hsteps hc
    (a := .force 0) rfl
  rwa [hn] at hends

end Session
end Deferral
