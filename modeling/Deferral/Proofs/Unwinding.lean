/-
# What an interruption leaves behind

A failure unwinds through all that it is nested in: binders, rounds of forcing, computations and
half-walked bags. What was done for good stays done: entities are complete, results are memoized,
bags have their entries. From the failure on nothing else is done, but each binder that is
still active is undone, so that it can be started again.

Key definitions: `Session.World.KeptIn`, `Session.Course.Unwound`, `Session.Program.FailsAt`,
`Session.Raised`, `Session.Orderly`.
Key theorems: `Session.orderly_force`, `Session.orderly_resolve?`, `Session.orderly_performAll`.
-/
import Deferral.Proofs.Congruence

namespace Deferral
namespace Session

variable {p : Program} {t : Thread} {α β : Type} {w w' w'' : World}
variable {c c' c'' raised : Course} {at_ : Scope} {depth : Nat}

/-! ### What is done for good -/

/-- What is done for good in one world is so in the other. -/
structure World.KeptIn (w w' : World) : Prop where
  complete : ∀ e d, (w.bindings e).completion = .complete d → w'.bindings e = w.bindings e
  cells : ∀ (i : Nat) (c : Cell), w.cells[i]? = some c → ∃ c', w'.cells[i]? = some c' ∧ c.Later c'
  bags : ∀ b, w.bags b <+: w'.bags b

/-- What was done for good in a world of the course is so now. -/
def Course.Kept (c : Course) : Prop := ∀ w ∈ c.worlds, w.KeptIn c.now

namespace World

theorem KeptIn.refl (w : World) : w.KeptIn w :=
  ⟨fun _ _ _ => rfl, fun _ c h => ⟨c, h, .refl c⟩, fun _ => List.prefix_rfl⟩

theorem KeptIn.trans (h : w.KeptIn w') (h' : w'.KeptIn w'') : w.KeptIn w'' where
  complete e d hd := by
    have heq := h.complete e d hd
    rw [h'.complete e d (heq ▸ hd), heq]
  cells i d hd := by
    obtain ⟨d', hd', hl⟩ := h.cells i d hd
    obtain ⟨d'', hd'', hl'⟩ := h'.cells i d' hd'
    exact ⟨d'', hd'', hl.trans hl'⟩
  bags b := (h.bags b).trans (h'.bags b)

theorem Later.keptIn (h : w.Later w') : w.KeptIn w' where
  complete e d hd := (h.bindings e).eq_of_ne (by simp [hd])
  cells := h.cells
  bags := h.bags

/-- A binding that is not complete may change. -/
theorem keptIn_updateBinding {e : Nat} (h : ∀ d, (w.bindings e).completion ≠ .complete d)
    (f : Binding → Binding) : w.KeptIn (w.updateBinding e f) where
  complete i d hd := by
    by_cases hie : i = e
    · subst hie
      exact absurd hd (h d)
    · exact updateBinding_ne w hie f
  cells _ d hd := ⟨d, hd, .refl d⟩
  bags _ := List.prefix_rfl

end World

theorem Course.Kept.goOn (h : c.Kept) (hw : c.now.KeptIn w) : (c.goOn w).Kept := by
  intro v hv
  rcases List.mem_cons.mp hv with rfl | hv
  · exact .refl _
  · exact (h v hv).trans hw

theorem Course.Kept.agrees (h : c.Kept) (hw : c.now.Agrees w) : (c.goOn w).Kept :=
  h.goOn (World.Later.of_eq hw.bindings hw.cells hw.bags hw.nextThread).keptIn

/-! ### Unwinding -/

/-- Between the two courses binders that were active have been undone, and nothing else has changed
of entities, diagnostics and bags. -/
structure Course.Unwound (raised c : Course) : Prop where
  path : raised.worlds <:+ c.worlds
  bindings : ∀ e, c.now.bindings e = raised.now.bindings e ∨
    (∃ t, (raised.now.bindings e).completion = .inProgress t) ∧
      c.now.bindings e = (raised.now.bindings e).abandon
  cells : c.now.cells = raised.now.cells
  bags : c.now.bags = raised.now.bags

namespace Course.Unwound

theorem refl (c : Course) : c.Unwound c := ⟨List.suffix_rfl, fun _ => .inl rfl, rfl, rfl⟩

theorem agrees (h : raised.Unwound c) (hw : c.now.Agrees w) : raised.Unwound (c.goOn w) where
  path := h.path.trans (List.suffix_cons _ _)
  bindings e := by
    have heq : (c.goOn w).now.bindings e = c.now.bindings e := congrFun hw.bindings e
    rw [heq]
    exact h.bindings e
  cells := hw.cells.trans h.cells
  bags := hw.bags.trans h.bags

/-- A binder that is still active is undone. -/
theorem abandon {e : Nat} (h : raised.Unwound c)
    (he : (c.now.bindings e).completion = .inProgress t) :
    raised.Unwound (c.goOn (c.now.updateBinding e (·.abandon))) where
  path := h.path.trans (List.suffix_cons _ _)
  bindings d := by
    by_cases hde : d = e
    · subst hde
      have hself : (c.goOn (c.now.updateBinding d (·.abandon))).now.bindings d =
        (c.now.bindings d).abandon := World.updateBinding_self _ _ _
      rw [hself]
      rcases h.bindings d with heq | ⟨-, heq⟩
      · rw [heq] at he ⊢
        exact .inr ⟨⟨t, he⟩, rfl⟩
      · rw [heq] at he
        cases he
    · have hother : (c.goOn (c.now.updateBinding e (·.abandon))).now.bindings d =
        c.now.bindings d := World.updateBinding_ne _ hde _
      rw [hother]
      exact h.bindings d
  cells := h.cells
  bags := h.bags

end Course.Unwound

/-- A run of the binder of the entity at a position has performed its steps, and fails. -/
def Program.FailsAt (p : Program) (e : Nat) (c : Course) : Prop :=
  ∃ wrapped completed binder depth, ∃ (at_ : Scope) (c₀ : Course),
    (p.entity e).behaviour = .source wrapped completed binder ∧
      performAll p depth (at_.inside s!"e{e}") binder.steps (c₀.started e at_.thread) = .ok ⟨⟩ c ∧
      c.now.bindings e = (c₀.now.bindings e).start at_.thread ∧
      (c.now.bindings e).starts ≤ binder.failures

/-- What began at `c` broke off at `raised`, and has been unwound to `c'`. -/
structure Raised (p : Program) (x : Interruption) (c raised c' : Course) : Prop where
  path : c.worlds <:+ raised.worlds
  unwound : raised.Unwound c'
  failed : ∀ e, x = .failure (.binderFailed e) → p.FailsAt e raised

theorem Raised.here {x : Interruption} (h : ∀ e, x ≠ .failure (.binderFailed e)) (c : Course) :
    Raised p x c c c :=
  ⟨List.suffix_rfl, .refl c, fun e he => absurd he (h e)⟩

theorem Raised.later {x : Interruption} (h : Raised p x c raised c'')
    (hp : c'.worlds <:+ c.worlds) :
    Raised p x c' raised c'' :=
  ⟨hp.trans h.path, h.unwound, h.failed⟩

/-! ### Orderly actions -/

/-- The action undoes nothing that is done for good, and where it breaks off, it unwinds. -/
structure Orderly (p : Program) (t : Thread) (x : Act α) : Prop where
  lawful : Lawful p t x
  kept : ∀ c : Course, c.now.Sound p → c.now.Hosts t → c.Kept → (x.course c).Kept
  breaks : ∀ {c c' : Course} {i : Interruption}, c.now.Sound p → c.now.Hosts t →
    x c = .error i c' → ∃ raised, Raised p i c raised c'

namespace Orderly

theorem pure (a : α) : Orderly p t (Pure.pure a : Act α) where
  lawful := .pure a
  kept _ _ _ h := h
  breaks _ _ h := by cases h

theorem throw {x : Interruption} (h : ∀ e, x ≠ .failure (.binderFailed e)) :
    Orderly p t (MonadExcept.throw x : Act α) where
  lawful := .throw x
  kept _ _ _ h := h
  breaks {c c' i} _ _ hx := by
    cases hx
    exact ⟨c, .here h c⟩

theorem get : Orderly p t (MonadState.get : Act World) where
  lawful := .get
  kept _ _ _ h := h
  breaks _ _ h := by cases h

theorem change {f : World → World} (h : Lawful p t (modify f : Act Unit)) :
    Orderly p t (modify f : Act Unit) where
  lawful := h
  kept c hs ht hk := hk.goOn (h c hs ht).later.keptIn
  breaks _ _ hx := by cases hx

theorem ok {x : Act α} (h : Orderly p t x) {a : α} (hs : c.now.Sound p) (ht : c.now.Hosts t)
    (hx : x c = .ok a c') : c'.now.Sound p ∧ c'.now.Hosts t ∧ c.worlds <:+ c'.worlds := by
  have hpass := h.lawful.ok hs ht hx
  exact ⟨hpass.sound hs, hpass.hosts ht, hpass.suffix⟩

theorem bind {x : Act α} {f : α → Act β} (hx : Orderly p t x) (hf : ∀ a, Orderly p t (f a)) :
    Orderly p t (x >>= f) where
  lawful := hx.lawful.bind fun a => (hf a).lawful
  kept c hs ht hk := by
    have hk' := hx.kept c hs ht hk
    cases hc : x c with
    | ok a c' =>
      obtain ⟨hs', ht', -⟩ := hx.ok hs ht hc
      rw [Act.course_of_ok hc] at hk'
      rw [Act.course_bind_of_ok hc]
      exact (hf a).kept c' hs' ht' hk'
    | error i c' =>
      rw [Act.course_of_error hc] at hk'
      rw [Act.course_of_error (Act.bind_of_error hc)]
      exact hk'
  breaks {c c' i} hs ht h := by
    cases hc : x c with
    | ok a c₁ =>
      obtain ⟨hs', ht', hpath⟩ := hx.ok hs ht hc
      rw [Act.bind_of_ok hc] at h
      obtain ⟨raised, hr⟩ := (hf a).breaks hs' ht' h
      exact ⟨raised, hr.later hpath⟩
    | error j c₁ =>
      rw [Act.bind_of_error hc] at h
      cases h
      exact hx.breaks hs ht hc

theorem unlessWaiting {x : Act α} (hx : Orderly p t x) : Orderly p t (unlessWaiting x) where
  lawful := hx.lawful.unlessWaiting
  kept c hs ht hk := by
    rcases Act.course_unlessWaiting x c with h | h
    · rw [h]
      exact hx.kept c hs ht hk
    · rw [Act.course_of_ok h]
      exact hk
  breaks {c c' i} hs ht h := by
    unfold Session.unlessWaiting at h
    cases hc : x c with
    | ok a c₁ =>
      rw [hc] at h
      cases h
    | error j c₁ =>
      rw [hc] at h
      cases j with
      | blocked => cases h
      | failure f =>
        cases h
        exact hx.breaks hs ht hc
      | tooDeep =>
        cases h
        exact hx.breaks hs ht hc
      | unknownName name =>
        cases h
        exact hx.breaks hs ht hc

theorem guarded {x : Act Answer} (hx : Orderly p t x) : Orderly p t (guarded x) where
  lawful := lawful_guarded hx.lawful
  kept c hs ht hk := by
    have hk' := hx.kept c hs ht hk
    unfold Session.guarded
    cases hc : x c with
    | ok a c' =>
      rw [Act.course_of_ok hc] at hk'
      rw [Act.course_of_ok (Act.tryCatch_of_ok hc)]
      exact hk'
    | error i c' =>
      rw [Act.course_of_error hc] at hk'
      rw [Act.course, Act.tryCatch_of_error hc]
      cases i with
      | failure f => exact hk'
      | blocked => exact hk'
      | tooDeep => exact hk'
      | unknownName name => exact hk'
  breaks {c c' i} hs ht h := by
    unfold Session.guarded at h
    cases hc : x c with
    | ok a c₁ =>
      rw [Act.tryCatch_of_ok hc] at h
      cases h
    | error j c₁ =>
      -- a failure is caught, and what is not a failure is thrown again
      rw [Act.tryCatch_of_error hc] at h
      cases j with
      | failure f => cases h
      | blocked =>
        cases h
        exact hx.breaks hs ht hc
      | tooDeep =>
        cases h
        exact hx.breaks hs ht hc
      | unknownName name =>
        cases h
        exact hx.breaks hs ht hc

theorem emit (at_ : Scope) (e : TraceEntry) : Orderly p t (emit at_ e) := by
  unfold Session.emit
  split
  · exact .change (lawful_note _)
  · exact .pure _

theorem inSpan (name : String) (fields : List (String × FieldValue)) {x : Act α}
    (hx : Orderly p t x) : Orderly p t (inSpan at_ name fields x) where
  lawful := lawful_inSpan at_ name fields hx.lawful
  kept c hs ht hk := by
    obtain ⟨c₁, log, h₁, -⟩ := emit_runs at_ ⟨.span, name, fields⟩ c
    have henter : Orderly p t (Session.emit at_ ⟨.span, name, fields⟩) := .emit at_ _
    obtain ⟨hs₁, ht₁, -⟩ := henter.ok hs ht h₁
    have hk₁ := henter.kept c hs ht hk
    rw [Act.course_of_ok h₁] at hk₁
    have hk₂ := hx.kept c₁ hs₁ ht₁ hk₁
    have hleave : ∀ c₂ : Course, c₂.now.Sound p → c₂.now.Hosts t → c₂.Kept →
        ((Session.emit at_ ⟨.exit, name, []⟩).course c₂).Kept := (emit at_ _).kept
    cases hc : x c₁ with
    | ok a c₂ =>
      obtain ⟨c₃, log, h₃, -⟩ := emit_runs at_ ⟨.exit, name, []⟩ c₂
      obtain ⟨hs₂, ht₂, -⟩ := hx.ok hs₁ ht₁ hc
      rw [Act.course_of_ok hc] at hk₂
      have hk₃ := hleave c₂ hs₂ ht₂ hk₂
      rw [Act.course_of_ok h₃] at hk₃
      rw [Act.course_of_ok (inSpan_of_ok h₁ hc h₃)]
      exact hk₃
    | error i c₂ =>
      obtain ⟨c₃, log, h₃, -⟩ := emit_runs at_ ⟨.exit, name, []⟩ c₂
      have hpass := hx.lawful.error hs₁ ht₁ hc
      rw [Act.course_of_error hc] at hk₂
      have hk₃ := hleave c₂ (hpass.sound hs₁) (hpass.hosts ht₁) hk₂
      rw [Act.course_of_ok h₃] at hk₃
      rw [Act.course_of_error (inSpan_of_error h₁ hc h₃)]
      exact hk₃
  breaks {c c' i} hs ht h := by
    obtain ⟨c₁, log, h₁, -⟩ := emit_runs at_ ⟨.span, name, fields⟩ c
    obtain ⟨hs₁, ht₁, hpath⟩ := (emit at_ ⟨.span, name, fields⟩).ok hs ht h₁
    cases hc : x c₁ with
    | ok a c₂ =>
      obtain ⟨c₃, log, h₃, -⟩ := emit_runs at_ ⟨.exit, name, []⟩ c₂
      rw [inSpan_of_ok h₁ hc h₃] at h
      cases h
    | error j c₂ =>
      obtain ⟨raised, hr⟩ := hx.breaks hs₁ ht₁ hc
      rcases emit_cases at_ ⟨.exit, name, []⟩ c₂ with h₃ | ⟨log, h₃⟩
      · rw [inSpan_of_error h₁ hc h₃] at h
        cases h
        exact ⟨raised, hr.later hpath⟩
      · rw [inSpan_of_error h₁ hc h₃] at h
        cases h
        have hquiet : c₂.now.Agrees { c₂.now with log } := ⟨rfl, rfl, rfl, Nat.le_refl _⟩
        exact ⟨raised, hpath.trans hr.path, hr.unwound.agrees hquiet, hr.failed⟩

end Orderly

theorem ne_binderFailed_of_isOpen {x : Interruption} (h : x.isOpen = true) :
    ∀ e, x ≠ .failure (.binderFailed e) := by
  rintro e rfl
  cases h

/-! ### Binders -/

section

variable {run : Runner} {e : Nat} {binder : Binder} {x : Interruption}

/-- A run of a binder breaks off in its steps, or fails after them. -/
theorem runBinder_eq_error (h : runBinder run at_ e binder c = .error x c') :
    run (at_.inside s!"e{e}") binder.steps c = .error x c' ∨
      run (at_.inside s!"e{e}") binder.steps c = .ok ⟨⟩ c' ∧
        x = .failure (.binderFailed e) ∧ (c'.now.bindings e).starts ≤ binder.failures := by
  unfold runBinder at h
  cases hc : run (at_.inside s!"e{e}") binder.steps c with
  | ok a c₁ =>
    rw [Act.bind_of_ok hc, Act.get_bind] at h
    split at h
    · rename_i hle
      cases h
      exact .inr ⟨rfl, rfl, hle⟩
    · cases h
  | error i c₁ =>
    rw [Act.bind_of_error hc] at h
    cases h
    exact .inl rfl

theorem course_runBinder :
    (runBinder run at_ e binder).course c = (run (at_.inside s!"e{e}") binder.steps).course c := by
  unfold runBinder
  cases hc : run (at_.inside s!"e{e}") binder.steps c with
  | ok a c₁ =>
    rw [Act.course_of_ok hc, Act.course_bind_of_ok hc, Act.course, Act.get_bind]
    by_cases hle : (c₁.now.bindings e).starts ≤ binder.failures
    · rw [if_pos hle]
      rfl
    · rw [if_neg hle]
      rfl
  | error i c₁ => rw [Act.course_of_error hc, Act.course_of_error (Act.bind_of_error hc)]

theorem sound_started (hs : c.now.Sound p) (ht : c.now.Hosts t) : (c.started e t).now.Sound p := by
  have hstart : (c.now.updateBinding e (·.start t)).Sound p := by
    refine hs.updateBinding e (fun d hd => ?_) fun t' h => ?_
    · simp [Binding.start] at hd
    · obtain rfl : t = t' := by simpa [Binding.start] using h
      exact ht
  exact hstart

/-- Whatever a binder does, it is active until it ends. -/
theorem active_of_passage (h : Passage p (c.started e t) c') :
    c'.now.bindings e = (c.now.bindings e).start t := by
  have hstart : (c.started e t).now.bindings e = (c.now.bindings e).start t :=
    World.updateBinding_self c.now e (·.start t)
  rw [(h.later.bindings e).eq_of_ne (by simp [hstart, Binding.start]), hstart]

end

/-- Nested steps are orderly on the thread that they run on. -/
def OrderlyRunner (p : Program) (run : Runner) : Prop :=
  ∀ at_ steps, Orderly p at_.thread (run at_ steps)

/-- A run of a binder that breaks off is undone, and one that returns is stored. -/
theorem kept_complete (hrun : OrderlyRunner p (performAll p depth)) {e : Nat} (binder : Binder)
    (hs : c.now.Sound p) (ht : c.now.Hosts at_.thread) (hk : c.Kept)
    (hidle : (c.now.bindings e).completion = .notStarted) :
    ((complete p (performAll p depth) at_ e binder).course c).Kept := by
  have hs₀ : (c.started e at_.thread).now.Sound p := sound_started hs ht
  have hk₀ : (c.started e at_.thread).Kept :=
    hk.goOn (World.keptIn_updateBinding (by simp [hidle]) _)
  have hk₁ := (hrun (at_.inside s!"e{e}") binder.steps).kept _ hs₀ ht hk₀
  have hlaw : Lawful p at_.thread (runBinder (performAll p depth) at_ e binder) :=
    lawful_runBinder (lawful_performAll p depth) e binder
  have hactive := active_of_passage (hlaw _ hs₀ ht)
  rw [← course_runBinder] at hk₁
  have hnot : ∀ d, (((runBinder (performAll p depth) at_ e binder).course
      (c.started e at_.thread)).now.bindings e).completion ≠ .complete d := by
    rw [hactive]
    simp [Binding.start]
  cases hb : runBinder (performAll p depth) at_ e binder (c.started e at_.thread) with
  | ok a c₁ =>
    rw [Act.course_of_ok hb] at hk₁ hnot
    rw [Act.course_of_ok (complete_of_ok hb)]
    exact hk₁.goOn (World.keptIn_updateBinding hnot _)
  | error x c₁ =>
    rw [Act.course_of_error hb] at hk₁ hnot
    rw [Act.course_of_error (complete_of_error hb)]
    exact hk₁.goOn (World.keptIn_updateBinding hnot _)

theorem raised_complete (hrun : OrderlyRunner p (performAll p depth)) {e : Nat} {binder : Binder}
    {wrapped completed : Bool} (hbeh : (p.entity e).behaviour = .source wrapped completed binder)
    (hs : c.now.Sound p) (ht : c.now.Hosts at_.thread) {x : Interruption}
    (h : complete p (performAll p depth) at_ e binder c = .error x c') :
    ∃ raised, Raised p x c raised c' := by
  have hs₀ : (c.started e at_.thread).now.Sound p := sound_started hs ht
  have hlaw : Lawful p at_.thread (runBinder (performAll p depth) at_ e binder) :=
    lawful_runBinder (lawful_performAll p depth) e binder
  have hpath : c.worlds <:+ (c.started e at_.thread).worlds := List.suffix_cons _ _
  cases hb : runBinder (performAll p depth) at_ e binder (c.started e at_.thread) with
  | ok a c₁ =>
    rw [complete_of_ok hb] at h
    cases h
  | error i c₁ =>
    rw [complete_of_error hb] at h
    cases h
    have hpass := hlaw.error hs₀ ht hb
    have hactive := active_of_passage hpass
    have hprogress : (c₁.now.bindings e).completion = .inProgress at_.thread := by
      rw [hactive]
      rfl
    rcases runBinder_eq_error hb with hsteps | ⟨hsteps, rfl, hle⟩
    · obtain ⟨raised, hr⟩ := (hrun (at_.inside s!"e{e}") binder.steps).breaks hs₀ ht hsteps
      exact ⟨raised, hpath.trans hr.path, hr.unwound.abandon hprogress, hr.failed⟩
    · refine ⟨c₁, hpath.trans hpass.suffix, (Course.Unwound.refl c₁).abandon hprogress, ?_⟩
      intro d hd
      cases hd
      exact ⟨wrapped, completed, binder, depth, at_, c, hbeh, hsteps, hactive, hle⟩

/-- A demand that breaks off is unwound with the binder that it started. -/
theorem orderly_force (hrun : OrderlyRunner p (performAll p depth)) (e : Nat) :
    Orderly p at_.thread (force p (performAll p depth) at_ e) := by
  have hlaw : Lawful p at_.thread (force p (performAll p depth) at_ e) :=
    lawful_force (lawful_performAll p depth) e
  have hdemand : Orderly p at_.thread
      (modify fun w => { w with demands := e :: w.demands } : Act Unit) :=
    .change (.change_of_agrees fun _ => ⟨rfl, rfl, rfl, Nat.le_refl _⟩)
  cases hbeh : (p.entity e).behaviour with
  | stub needs here =>
    rw [force_of_no_binder (congrArg Behaviour.isSource hbeh)]
    exact hdemand
  | bare finished =>
    rw [force_of_no_binder (congrArg Behaviour.isSource hbeh)]
    exact hdemand
  | source wrapped completed binder =>
  have hagree : ∀ c : Course, c.now.Agrees (c.demanding e).now := fun _ =>
    ⟨rfl, rfl, rfl, Nat.le_refl _⟩
  exact
    { lawful := hlaw
      kept := fun c hs ht hk => by
        have hpass := (hagree c).passage hs
        have hk' : (c.demanding e).Kept := hk.agrees (hagree c)
        rw [Act.course, force_source hbeh]
        cases hd : (c.now.bindings e).demand at_.thread with
        | done => exact hk'
        | reentrant => exact (Orderly.emit at_ _).kept _ (hpass.sound hs) (hpass.hosts ht) hk'
        | wait => exact hk'
        | start =>
          exact kept_complete hrun binder (hpass.sound hs) (hpass.hosts ht) hk'
            (Binding.demand_start_iff.mp hd)
      breaks := fun {c c' i} hs ht h => by
        have hpass := (hagree c).passage hs
        rw [force_source hbeh] at h
        have hinner : ∃ raised, Raised p i (c.demanding e) raised c' := by
          cases hd : (c.now.bindings e).demand at_.thread with
          | done =>
            rw [hd] at h
            cases h
          | reentrant =>
            rw [hd] at h
            exact (Orderly.emit at_ _).breaks (hpass.sound hs) (hpass.hosts ht) h
          | wait =>
            rw [hd] at h
            cases h
            exact ⟨_, .here (by simp) _⟩
          | start =>
            rw [hd] at h
            exact raised_complete hrun hbeh (hpass.sound hs) (hpass.hosts ht) h
        obtain ⟨raised, hr⟩ := hinner
        exact ⟨raised, hr.later hpass.suffix⟩ }

/-! ### Diagnostics -/

/-- A resolution that breaks off does so where its computation does: it memoizes nothing. -/
theorem resolve?_eq_error {run : Runner} {cell : Nat} {x : Interruption}
    (h : resolve? p run at_ cell c = .error x c') :
    ∃ comp slot calls, c.now.cells[cell]? = some (.deferred comp slot calls) ∧
      slot.stored = none ∧
      compute p run at_ calls comp (c.counting cell comp slot calls) = .error x c' := by
  cases hc : c.now.cells[cell]? with
  | none =>
    rw [resolve?_of_none hc] at h
    cases h
  | some d =>
  cases hd : d.result? with
  | some o =>
    rw [resolve?_of_result hc hd] at h
    cases h
  | none =>
  cases d with
  | known o => cases hd
  | deferred comp slot calls =>
    rw [resolve?_of_empty hc hd] at h
    refine ⟨comp, slot, calls, rfl, hd, ?_⟩
    cases hcomp : compute p run at_ calls comp (c.counting cell comp slot calls) with
    | ok a c₁ =>
      obtain ⟨o, c₂, hkeep⟩ := keepFinding_ok at_ cell a c₁
      rw [Act.bind_of_ok hcomp, hkeep] at h
      cases h
    | error i c₁ =>
      rw [Act.bind_of_error hcomp] at h
      cases h
      rfl

theorem Course.Kept.emit (h : c.Kept) (at_ : Scope) (e : TraceEntry) :
    ((emit at_ e).course c).Kept := by
  rcases emit_cases at_ e c with he | ⟨log, he⟩
  · rw [Act.course_of_ok he]
    exact h
  · rw [Act.course_of_ok he]
    exact h.agrees ⟨rfl, rfl, rfl, Nat.le_refl _⟩

theorem Course.Kept.memoize (h : c.Kept) (cell : Nat) (o : Shared Finding) :
    ((memoize cell o).course c).Kept := by
  cases hc : c.now.cells[cell]? with
  | none =>
    rw [Act.course, Session.memoize, Act.get_bind, hc]
    exact h
  | some d =>
  cases d with
  | known held =>
    rw [Act.course, Session.memoize, Act.get_bind, hc]
    exact h
  | deferred comp slot calls =>
    rw [Act.course_of_ok (memoize_of_deferred hc o)]
    exact h.goOn (World.later_setCell hc (Cell.later_offer comp slot calls o)).keptIn

theorem Course.Kept.answerOffer (h : c.Kept) (at_ : Scope) (r : Shared Finding × Bool) :
    ((answerOffer at_ r).course c).Kept := by
  obtain ⟨held, won⟩ := r
  cases won with
  | true => exact h
  | false =>
    have hk := h.emit at_
      ⟨.event, "diagnostic resolved concurrently, discarding local result", []⟩
    obtain ⟨c₁, log, h₁, -⟩ := emit_runs at_
      ⟨.event, "diagnostic resolved concurrently, discarding local result", []⟩ c
    rw [Act.course_of_ok h₁] at hk
    have hanswer : (Session.answerOffer at_ (held, false)).course c = c₁ :=
      Act.course_of_ok (Act.bind_of_ok h₁)
    rw [hanswer]
    exact hk

theorem Course.Kept.keepFinding (h : c.Kept) (at_ : Scope) (cell : Nat) (o : Option Finding) :
    ((keepFinding at_ cell o).course c).Kept := by
  cases o with
  | none =>
    have hk := h.emit at_ ⟨.event, "diagnostic undecided on this thread, not memoizing", []⟩
    obtain ⟨c₁, log, h₁, -⟩ := emit_runs at_
      ⟨.event, "diagnostic undecided on this thread, not memoizing", []⟩ c
    rw [Act.course_of_ok h₁] at hk
    rw [Session.keepFinding, Act.course_bind_of_ok h₁]
    exact hk
  | some f =>
    -- the object is made, then offered, and then at most an entry is added to the trace
    have hk₁ : (c.making f).Kept := h.agrees ⟨rfl, rfl, rfl, Nat.le_refl _⟩
    have hk₂ := hk₁.memoize cell (objectAt c.now.nextKey f).1
    obtain ⟨r, c₂, hm⟩ := memoize_ok cell (objectAt c.now.nextKey f).1 (c.making f)
    rw [Act.course_of_ok hm] at hk₂
    rw [course_keepFinding_of_offer hm]
    exact hk₂.answerOffer at_ r

/-- A resolution that breaks off is unwound with its computation. -/
theorem orderly_resolve?
    (hcompute : ∀ comp call, Orderly p at_.thread (compute p (performAll p depth) at_ call comp))
    (cell : Nat) : Orderly p at_.thread (resolve? p (performAll p depth) at_ cell) where
  lawful := lawful_resolve? (lawful_performAll p depth) cell
  kept c hs ht hk := by
    cases hc : c.now.cells[cell]? with
    | none =>
      rw [Act.course_of_ok (resolve?_of_none hc)]
      exact hk
    | some d =>
    cases hd : d.result? with
    | some o =>
      rw [Act.course_of_ok (resolve?_of_result hc hd)]
      exact hk
    | none =>
    cases d with
    | known o => cases hd
    | deferred comp slot calls =>
      have hpass : Passage p c (c.counting cell comp slot calls) := passage_count hs hc
      have hk₁ : (c.counting cell comp slot calls).Kept := hk.goOn hpass.later.keptIn
      have hk₂ := (hcompute comp calls).kept _ (hpass.sound hs) (hpass.hosts ht) hk₁
      rw [Act.course, resolve?_of_empty hc hd]
      cases hcomp : compute p (performAll p depth) at_ calls comp
          (c.counting cell comp slot calls) with
      | ok a c₁ =>
        rw [Act.course_of_ok hcomp] at hk₂
        rw [Act.bind_of_ok hcomp]
        exact hk₂.keepFinding at_ cell a
      | error i c₁ =>
        rw [Act.course_of_error hcomp] at hk₂
        rw [Act.bind_of_error hcomp]
        exact hk₂
  breaks {c c' i} hs ht h := by
    obtain ⟨comp, slot, calls, hc, -, hcomp⟩ := resolve?_eq_error h
    have hpass := passage_count hs hc
    obtain ⟨raised, hr⟩ := (hcompute comp calls).breaks (hpass.sound hs) (hpass.hosts ht) hcomp
    exact ⟨raised, hr.later hpass.suffix⟩

/-- What is orderly, as a property that the actions of a session keep. -/
def orderliness (hrun : OrderlyRunner p (performAll p depth)) (at_ : Scope) :
    Congruence p (performAll p depth) (performAll p depth) at_ where
  Rel x _ := Orderly p at_.thread x
  Admits _ := True
  alike := .refl p
  pure_rel := .pure
  throw_rel h := .throw (ne_binderFailed_of_isOpen h)
  bind_rel h h' := h.bind h'
  emit_rel := .emit at_
  inSpan_rel name fields h := h.inSpan name fields
  view_rel := Orderly.get.bind fun _ => .pure _
  visible_rel _ := Orderly.get.bind fun _ => .pure _
  force_rel := orderly_force hrun
  check_admitted _ _ _ _ := trivial
  constant_admitted _ := trivial
  get_rel := .get
  quiet_rel h := .change (.change_of_agrees fun w => (h w).agrees)
  guarded_rel h := h.guarded
  known_rel _ := .change (.change fun w hs _ => ⟨hs.addCell trivial, World.later_addCell w _⟩)
  deferred_rel {c} _ := .change
    (.change fun w hs _ => ⟨hs.addCell (Cell.right_of_empty p c), World.later_addCell w _⟩)
  push_rel bag cell := .change (lawful_push bag cell)
  nested_rel {name _ during} _ := hrun (at_.inside name) during
  resolve_rel h cell := orderly_resolve? (fun comp call => h comp trivial call) cell

/-! ### Threads -/

section

variable {body : Scope → Act α}

/-- The course on which a new thread starts. -/
def Course.launching (c : Course) : Course :=
  c.goOn { c.now with log := [], nextThread := c.now.nextThread + 1 }

theorem onThread_of_ok {a : α} (h : body ⟨c.now.nextThread, []⟩ c.launching = .ok a c') :
    onThread body c = .ok (a, c'.now.log.reverse) (c'.goOn { c'.now with log := c.now.log }) := by
  have hthread : onThread body c = (do
      let result ←
        try body ⟨c.now.nextThread, []⟩
        catch x =>
          modify fun w => { w with log := c.now.log }
          throw x
      let inner := (← get).log
      modify fun w => { w with log := c.now.log }
      return (result, inner.reverse) : Act (α × List Entry)) c.launching := rfl
  rw [hthread, Act.bind_of_ok (Act.tryCatch_of_ok h)]
  rfl

theorem onThread_of_error {x : Interruption}
    (h : body ⟨c.now.nextThread, []⟩ c.launching = .error x c') :
    onThread body c = .error x (c'.goOn { c'.now with log := c.now.log }) := by
  have hthread : onThread body c = (do
      let result ←
        try body ⟨c.now.nextThread, []⟩
        catch x =>
          modify fun w => { w with log := c.now.log }
          throw x
      let inner := (← get).log
      modify fun w => { w with log := c.now.log }
      return (result, inner.reverse) : Act (α × List Entry)) c.launching := rfl
  rw [hthread]
  refine Act.bind_of_error ((Act.tryCatch_of_error h).trans ?_)
  rfl

theorem hosts_launching (ht : c.now.Hosts t) : c.launching.now.Hosts c.now.nextThread :=
  ⟨Nat.le_of_lt (Nat.lt_of_le_of_lt ht.1 ht.2), Nat.lt_succ_self _⟩

/-- What is orderly on each new thread is orderly on the thread that waits for it. -/
theorem orderly_onThread (h : ∀ at_, Orderly p at_.thread (body at_)) :
    Orderly p t (onThread body) where
  lawful := lawful_onThread fun at_ => (h at_).lawful
  kept c hs ht hk := by
    have hpass : Passage p c c.launching :=
      World.Agrees.passage ⟨rfl, rfl, rfl, Nat.le_succ _⟩ hs
    have hk₁ : c.launching.Kept := hk.agrees ⟨rfl, rfl, rfl, Nat.le_succ _⟩
    have hk₂ := (h ⟨c.now.nextThread, []⟩).kept _ (hpass.sound hs) (hosts_launching ht) hk₁
    have hlog : ∀ c' : Course, c'.Kept → (c'.goOn { c'.now with log := c.now.log }).Kept :=
      fun c' hk' => hk'.agrees ⟨rfl, rfl, rfl, Nat.le_refl _⟩
    cases hb : body ⟨c.now.nextThread, []⟩ c.launching with
    | ok a c' =>
      rw [Act.course_of_ok hb] at hk₂
      rw [Act.course_of_ok (onThread_of_ok hb)]
      exact hlog c' hk₂
    | error i c' =>
      rw [Act.course_of_error hb] at hk₂
      rw [Act.course_of_error (onThread_of_error hb)]
      exact hlog c' hk₂
  breaks {c c' i} hs ht hx := by
    have hpass : Passage p c c.launching :=
      World.Agrees.passage ⟨rfl, rfl, rfl, Nat.le_succ _⟩ hs
    cases hb : body ⟨c.now.nextThread, []⟩ c.launching with
    | ok a c₁ =>
      rw [onThread_of_ok hb] at hx
      cases hx
    | error j c₁ =>
      rw [onThread_of_error hb] at hx
      cases hx
      obtain ⟨raised, hr⟩ :=
        (h ⟨c.now.nextThread, []⟩).breaks (hpass.sound hs) (hosts_launching ht) hb
      have hlog : c₁.now.Agrees { c₁.now with log := c.now.log } := ⟨rfl, rfl, rfl, Nat.le_refl _⟩
      exact ⟨raised, hpass.suffix.trans hr.path, hr.unwound.agrees hlog, hr.failed⟩

end

theorem orderly_resolveOnThreads (hrun : OrderlyRunner p (performAll p depth)) (cell : Nat) :
    ∀ n, Orderly p t (resolveOnThreads p (performAll p depth) cell n)
  | 0 => .pure _
  | n + 1 => by
    refine (orderly_onThread fun at_ => (orderliness hrun at_).resolveOrVoid cell).bind fun o => ?_
    exact (orderly_resolveOnThreads hrun cell n).bind fun _ => .pure _

theorem orderly_offerEach (hrun : OrderlyRunner p (performAll p depth)) (f : Finding) :
    ∀ n slot, Orderly p at_.thread (offerEach f n slot)
  | 0, _ => .pure _
  | n + 1, slot => by
    have hobject : Orderly p at_.thread (objectFor f) := (orderliness hrun at_).objectFor f
    exact hobject.bind fun _ => (orderly_offerEach hrun f n _).bind fun _ => .pure _

theorem orderly_threadLog (hrun : OrderlyRunner p (performAll p depth)) (steps : List Step) :
    Orderly p t (threadLog (performAll p depth) steps) :=
  ((orderly_onThread fun at_ => hrun at_ steps).bind fun _ => .pure _).guarded

theorem orderly_startThread (hrun : OrderlyRunner p (performAll p depth)) (steps : List Step) :
    Orderly p t (startThread (performAll p depth) steps) := by
  refine (orderly_threadLog hrun steps).unlessWaiting.bind fun a => ?_
  split <;> exact .pure _

/-- Actions that involve other threads are orderly too. -/
theorem covers_orderly (hrun : OrderlyRunner p (performAll p depth)) (at_ : Scope) (a : Action) :
    (orderliness hrun at_).Covers a := by
  have hfind : ∀ diag, Orderly p at_.thread (findCell diag) := (orderliness hrun at_).findCell
  unfold Congruence.Covers
  split
  · exact trivial
  · intro hthreaded
    cases a with
    | race diag n =>
      exact (hfind diag).bind fun cell => (orderly_resolveOnThreads hrun cell n).bind fun _ =>
        .pure _
    | raceCompute n f => exact (orderly_offerEach hrun f n _).bind fun _ => .pure _
    | spawn steps => exact orderly_threadLog hrun steps
    | launch thread late steps =>
      have hlaunched : ∀ l, Orderly p at_.thread (modify fun w =>
          { w with launched := (thread, l) :: w.launched } : Act Unit) :=
        fun l => .change (lawful_launched thread l)
      rw [answer]
      split
      · exact (Orderly.pure _).bind fun l => (hlaunched l).bind fun _ => .pure _
      · exact (orderly_startThread hrun steps).bind fun l => (hlaunched l).bind fun _ => .pure _
    | join thread =>
      refine Orderly.get.bind fun w => ?_
      cases w.launched.lookup thread with
      | none => exact .throw (by simp)
      | some l =>
        cases l with
        | ended a => exact .pure a
        | held steps => exact orderly_threadLog hrun steps
    | _ => cases hthreaded

/-- Steps nested to any depth are orderly. -/
theorem orderly_performAll (p : Program) : ∀ depth, OrderlyRunner p (performAll p depth)
  | 0 => fun _ _ => .throw (by simp)
  | depth + 1 => fun at_ _ =>
    (orderliness (orderly_performAll p depth) at_).performEach fun s _ =>
      covers_orderly (orderly_performAll p depth) at_ s.action

theorem orderly_answer (p : Program) (depth : Nat) (at_ : Scope) (a : Action) :
    Orderly p at_.thread (answer p (performAll p depth) at_ a) :=
  (orderliness (orderly_performAll p depth) at_).answer
    (covers_orderly (orderly_performAll p depth) at_ a)

end Session
end Deferral
