/-
# Sessions side by side

Two sessions, the second of which postpones checks that the first decides at once, run from matched
worlds. Actions of the two accord when they come to related answers, or break off alike, in worlds
that are matched again. What is put together from actions that accord does accord, and so does the
forcing of an entity, if the steps of its binders do.

Key definitions: `Session.Joined`, `Session.Accords`, `Session.AccordingRunner`,
`Session.according`.
Key theorems: `Session.Accords.bind`, `Session.accords_force`.
-/
import Deferral.Proofs.Correspondence
import Deferral.Proofs.Unwinding

namespace Deferral
namespace Session

variable {p p' : Program} {fresh : String → Prop} {run run' : Runner} {at_ : Scope} {t : Thread}
variable {α β γ δ : Type} {π π₁ : List Link} {c c' c₁ c₁' : Course} {w w' : World}

/-! ### Sessions side by side -/

/-- The worlds are matched now, and have corresponded so far. -/
structure Joined (p : Program) (fresh : String → Prop) (π : List Link) (c c' : Course) : Prop where
  matched : Matched p fresh π c.now c'.now
  histories : Corresponds World.Tallies c.worlds c'.worlds

/-- Both have ended, with answers that are related, or have broken off alike. Links that there were
before are there still. -/
def Outcome (p : Program) (fresh : String → Prop) (R : List Link → α → β → Prop) (π : List Link) :
    EStateM.Result Interruption Course α → EStateM.Result Interruption Course β → Prop
  | .ok a c, .ok b c' => ∃ π₁, π <+: π₁ ∧ Joined p fresh π₁ c c' ∧ R π₁ a b
  | .error x c, .error y c' => y = x ∧ ∃ π₁, π <+: π₁ ∧ Joined p fresh π₁ c c'
  | .ok _ _, .error _ _ => False
  | .error _ _, .ok _ _ => False

/-- From worlds that are matched, the actions come to related answers, or break off alike. -/
structure Accords (p : Program) (fresh : String → Prop) (t : Thread) (π : List Link)
    (R : List Link → α → β → Prop) (x : Act α) (y : Act β) : Prop where
  lawful : Lawful p t x
  run : ∀ {π₁ : List Link}, π <+: π₁ → ∀ {c c' : Course}, c.now.Sound p → c.now.Hosts t →
    Joined p fresh π₁ c c' → Outcome p fresh R π₁ (x c) (y c')

/-- The answers are the same. -/
abbrev Same (_ : List Link) (a b : α) : Prop := b = a

theorem Joined.goOn (h : Joined p fresh π c c') (hm : Matched p fresh π₁ w w') :
    Joined p fresh π₁ (c.goOn w) (c'.goOn w') :=
  ⟨hm, .both hm.tallies h.histories⟩

theorem Joined.ok {R : List Link → α → β → Prop} {a : α} {b : β} (h : Joined p fresh π c c')
    (hR : R π a b) : Outcome p fresh R π (.ok a c) (.ok b c') :=
  ⟨π, List.prefix_rfl, h, hR⟩

section

variable {R : List Link → α → β → Prop} {r : EStateM.Result Interruption Course α}
variable {r' : EStateM.Result Interruption Course β}

/-- Both have ended, or both have broken off. -/
theorem Outcome.ends (h : Outcome p fresh R π r r') :
    (∃ π₁ a b c c', π <+: π₁ ∧ Joined p fresh π₁ c c' ∧ R π₁ a b ∧ r = .ok a c ∧ r' = .ok b c') ∨
      ∃ π₁ x c c', π <+: π₁ ∧ Joined p fresh π₁ c c' ∧ r = .error x c ∧ r' = .error x c' := by
  cases r with
  | ok a c =>
    cases r' with
    | ok b c' =>
      obtain ⟨π₁, h₁, hj, hR⟩ := h
      exact .inl ⟨π₁, a, b, c, c', h₁, hj, hR, rfl, rfl⟩
    | error y c' => exact h.elim
  | error x c =>
    cases r' with
    | ok b c' => exact h.elim
    | error y c' =>
      obtain ⟨rfl, π₁, h₁, hj⟩ := h
      exact .inr ⟨π₁, y, c, c', h₁, hj, rfl, rfl⟩

theorem Outcome.widen (h : Outcome p fresh R π₁ r r') (hp : π <+: π₁) :
    Outcome p fresh R π r r' := by
  obtain ⟨π₂, a, b, c, c', h₂, hj, hR, rfl, rfl⟩ | ⟨π₂, x, c, c', h₂, hj, rfl, rfl⟩ := h.ends
  · exact ⟨π₂, hp.trans h₂, hj, hR⟩
  · exact ⟨rfl, π₂, hp.trans h₂, hj⟩

end

namespace Accords

variable {R : List Link → α → β → Prop} {S : List Link → γ → δ → Prop}

theorem mono {x : Act α} {y : Act β} (h : Accords p fresh t π R x y) (hp : π <+: π₁) :
    Accords p fresh t π₁ R x y where
  lawful := h.lawful
  run h₁ _ _ hs ht hj := h.run (hp.trans h₁) hs ht hj

theorem pure {a : α} {b : β} (h : ∀ π₁, π <+: π₁ → R π₁ a b) :
    Accords p fresh t π R (Pure.pure a : Act α) (Pure.pure b) where
  lawful := .pure a
  run h₁ _ _ _ _ hj := hj.ok (h _ h₁)

theorem throw (x : Interruption) :
    Accords p fresh t π R (MonadExcept.throw x : Act α) (MonadExcept.throw x : Act β) where
  lawful := .throw x
  run {π₁} _ _ _ _ _ hj := ⟨rfl, π₁, List.prefix_rfl, hj⟩

theorem bind {x : Act α} {y : Act β} {f : α → Act γ} {g : β → Act δ}
    (hx : Accords p fresh t π R x y) (hlaw : ∀ a, Lawful p t (f a))
    (hf : ∀ π₁, π <+: π₁ → ∀ a b, R π₁ a b → Accords p fresh t π₁ S (f a) (g b)) :
    Accords p fresh t π S (x >>= f) (y >>= g) where
  lawful := hx.lawful.bind hlaw
  run {π₁} h₁ {c c'} hs ht hj := by
    obtain ⟨π₂, a, b, c₁, c₁', h₂, hj₂, hR, hc, hc'⟩ | ⟨π₂, i, c₁, c₁', h₂, hj₂, hc, hc'⟩ :=
      (hx.run h₁ hs ht hj).ends
    · have hpass := hx.lawful.ok hs ht hc
      have hrest := (hf π₂ (h₁.trans h₂) a b hR).run List.prefix_rfl (hpass.sound hs)
        (hpass.hosts ht) hj₂
      rw [Act.bind_of_ok hc, Act.bind_of_ok hc']
      exact hrest.widen h₂
    · rw [Act.bind_of_error hc, Act.bind_of_error hc']
      exact ⟨rfl, π₂, h₂, hj₂⟩

/-- Actions that first look at their worlds. -/
theorem look {f : World → Act α} {g : World → Act β} (hlaw : Lawful p t (MonadState.get >>= f))
    (h : ∀ π₁, π <+: π₁ → ∀ c c' : Course, c.now.Sound p → c.now.Hosts t →
      Joined p fresh π₁ c c' → Outcome p fresh R π₁ (f c.now c) (g c'.now c')) :
    Accords p fresh t π R (MonadState.get >>= f) (MonadState.get >>= g) where
  lawful := hlaw
  run h₁ _ _ hs ht hj := h _ h₁ _ _ hs ht hj

/-- Actions that look at their worlds, and answer something. -/
theorem answer {f : World → α} {g : World → β}
    (h : ∀ π₁ w w', Matched p fresh π₁ w w' → R π₁ (f w) (g w')) :
    Accords p fresh t π R (do return f (← get) : Act α) (do return g (← get)) :=
  look (.bind .get fun _ => .pure _) fun _ _ _ _ _ _ hj => hj.ok (h _ _ _ hj.matched)

/-- Both worlds are changed, and are matched again. -/
theorem change {f g : World → World} (hlaw : Lawful p t (modify f : Act Unit))
    (h : ∀ π₁, π <+: π₁ → ∀ w w', Matched p fresh π₁ w w' → Matched p fresh π₁ (f w) (g w')) :
    Accords p fresh t π Same (modify f : Act Unit) (modify g) where
  lawful := hlaw
  run h₁ _ _ _ _ hj := (hj.goOn (h _ h₁ _ _ hj.matched)).ok rfl

end Accords

/-! ### Traces -/

/-- Neither what is completed nor what is reported nor names nor bags differ. -/
structure World.Aside (w w' : World) : Prop extends w.Tallies w' where
  names : w'.names = w.names
  bags : w'.bags = w.bags

/-- Only the log differs, and nothing has been reported. -/
structure World.Traced (w w' : World) : Prop extends w.Aside w' where
  cells : w'.cells = w.cells

theorem World.Traced.refl (w : World) : w.Traced w := ⟨⟨⟨rfl, rfl, rfl⟩, rfl, rfl⟩, rfl⟩

theorem World.Tallies.trans {w₁ : World} (h : w.Tallies w') (h' : w'.Tallies w₁) : w.Tallies w₁ :=
  ⟨h'.bindings.trans h.bindings, h'.demands.trans h.demands, h'.collected.trans h.collected⟩

theorem World.Tallies.symm (h : w.Tallies w') : w'.Tallies w :=
  ⟨h.bindings.symm, h.demands.symm, h.collected.symm⟩

theorem World.Aside.trans {w₁ : World} (h : w.Aside w') (h' : w'.Aside w₁) : w.Aside w₁ :=
  ⟨h.toTallies.trans h'.toTallies, h'.names.trans h.names, h'.bags.trans h.bags⟩

theorem World.Traced.trans {w₁ : World} (h : w.Traced w') (h' : w'.Traced w₁) : w.Traced w₁ :=
  ⟨h.toAside.trans h'.toAside, h'.cells.trans h.cells⟩

/-- A trace entry adds nothing that is reported. -/
theorem emit_traced (at_ : Scope) (e : TraceEntry) (c : Course) :
    ∃ c₁, emit at_ e c = .ok ⟨⟩ c₁ ∧ c.Through c.now.Traced c₁ := by
  unfold emit
  split
  · exact ⟨_, rfl, .goOn ⟨⟨⟨rfl, rfl, rfl⟩, rfl, rfl⟩, rfl⟩⟩
  · exact ⟨c, rfl, .refl _ c⟩

theorem Course.Through.imp {P Q : World → Prop} (h : c.Through P c₁) (hPQ : ∀ w, P w → Q w) :
    c.Through Q c₁ := by
  obtain ⟨ws, hws, hP⟩ := h
  exact ⟨ws, hws, fun w hw => hPQ w (hP w hw)⟩

/-- One traced course after another. -/
theorem Course.Through.traced (h : c.Through c.now.Traced c₁) {c₂ : Course}
    (h' : c₁.Through c₁.now.Traced c₂) : c.Through c.now.Traced c₂ :=
  h.trans (h'.imp fun _ hw => (h.now (.refl _)).trans hw)

theorem matched_of_traced {w₁ w₁' : World} (hm : Matched p fresh π w w')
    (h : w.Traced w₁) (h' : w'.Traced w₁') : Matched p fresh π w₁ w₁' := by
  have ht : w₁.Tallies w₁' := h.toTallies.symm.trans (hm.tallies.trans h'.toTallies)
  have hext : (w.view p mainThread).Extends (w₁.view p mainThread) := by
    rw [view_congr h.bindings h.demands]
    exact .refl _
  exact hm.quiet ht hext h.cells h'.cells h.names h'.names h.bags h'.bags

/-- The second session goes on alone. -/
theorem Joined.right (h : Joined p fresh π c c') (ht : c'.Through c'.now.Tallies c₁')
    (hm : Matched p fresh π₁ c.now c₁'.now) : Joined p fresh π₁ c c₁' where
  matched := hm
  histories := h.histories.right_of_through (ht.imp fun _ hw => h.matched.tallies.trans hw)

/-- The first session goes on alone. -/
theorem Joined.left (h : Joined p fresh π c c') (ht : c.Through c.now.Tallies c₁)
    (hm : Matched p fresh π₁ c₁.now c'.now) : Joined p fresh π₁ c₁ c' where
  matched := hm
  histories :=
    h.histories.left_of_through (ht.imp fun _ hw => hw.symm.trans h.matched.tallies)

/-- The same trace entry is added, where either thread has a trace. -/
theorem joined_emit (hj : Joined p fresh π c c') (at_ : Scope) (e : TraceEntry) :
    ∃ c₁ c₁', emit at_ e c = .ok ⟨⟩ c₁ ∧ emit at_ e c' = .ok ⟨⟩ c₁' ∧ Joined p fresh π c₁ c₁' := by
  obtain ⟨c₁, h₁, ht⟩ := emit_traced at_ e c
  obtain ⟨c₁', h₁', ht'⟩ := emit_traced at_ e c'
  refine ⟨c₁, c₁', h₁, h₁', ?_⟩
  have hj₁ : Joined p fresh π c₁ c' := hj.left (ht.imp fun _ hw => hw.toTallies)
    (matched_of_traced hj.matched (ht.now (.refl _)) (.refl _))
  exact hj₁.right (ht'.imp fun _ hw => hw.toTallies)
    (matched_of_traced hj₁.matched (.refl _) (ht'.now (.refl _)))

theorem accords_emit (e : TraceEntry) :
    Accords p fresh t π Same (emit at_ e) (emit at_ e) where
  lawful := lawful_emit at_ e
  run _ _ _ _ _ hj := by
    obtain ⟨c₁, c₁', h₁, h₁', hj₁⟩ := joined_emit hj at_ e
    rw [h₁, h₁']
    exact hj₁.ok rfl

theorem accords_inSpan {R : List Link → α → β → Prop} {x : Act α} {y : Act β} (name : String)
    (fields : List (String × FieldValue)) (h : Accords p fresh t π R x y) :
    Accords p fresh t π R (inSpan at_ name fields x) (inSpan at_ name fields y) where
  lawful := lawful_inSpan at_ name fields h.lawful
  run {π₁} h₁ {c c'} hs ht hj := by
    obtain ⟨c₂, c₂', he, he', hj₂⟩ := joined_emit hj at_ ⟨.span, name, fields⟩
    have hpass := (lawful_emit at_ _).ok hs ht he
    obtain ⟨π₂, a, b, c₃, c₃', h₂, hj₃, hR, hc, hc'⟩ | ⟨π₂, i, c₃, c₃', h₂, hj₃, hc, hc'⟩ :=
      (h.run h₁ (hpass.sound hs) (hpass.hosts ht) hj₂).ends
    · obtain ⟨c₄, c₄', hx, hx', hj₄⟩ := joined_emit hj₃ at_ ⟨.exit, name, []⟩
      rw [inSpan_of_ok he hc hx, inSpan_of_ok he' hc' hx']
      exact ⟨π₂, h₂, hj₄, hR⟩
    · obtain ⟨c₄, c₄', hx, hx', hj₄⟩ := joined_emit hj₃ at_ ⟨.exit, name, []⟩
      rw [inSpan_of_error he hc hx, inSpan_of_error he' hc' hx']
      exact ⟨rfl, π₂, h₂, hj₄⟩

/-! ### Binders -/

/-- Nested steps accord with their postponed form. -/
structure AccordingRunner (p : Program) (fresh : String → Prop) (run run' : Runner) : Prop where
  lawful : LawfulRunner p run
  accords : ∀ (at_ : Scope) {steps steps' : List Step}, Postponed fresh steps steps' → ∀ π,
    Accords p fresh at_.thread π Same (run at_ steps) (run' at_ steps')

/-- The bindings change alike, and what is complete stays complete. -/
theorem Joined.updateBinding (hp : p.Sourced) (h : Joined p fresh π c c') (e : Nat)
    {f : Binding → Binding} (hf : ∀ d, (c.now.bindings e).completion = .complete d →
      (f (c.now.bindings e)).completion = .complete d) :
    Joined p fresh π (c.goOn (c.now.updateBinding e f)) (c'.goOn (c'.now.updateBinding e f)) := by
  have htallies : (c.now.updateBinding e f).Tallies (c'.now.updateBinding e f) :=
    { bindings := by
        have hb := h.matched.tallies.bindings
        simp only [World.updateBinding, hb]
      demands := h.matched.tallies.demands
      collected := h.matched.tallies.collected }
  have hext : (c.now.view p mainThread).Extends ((c.now.updateBinding e f).view p mainThread) := by
    refine extends_of_complete hp fun i d hd => ?_
    by_cases hie : i = e
    · subst hie
      rw [World.updateBinding_self]
      exact hf d hd
    · rw [World.updateBinding_ne _ hie]
      exact hd
  exact h.goOn (h.matched.quiet htallies hext rfl rfl rfl rfl rfl rfl)

section

variable {e : Nat} {binder binder' : Binder}

theorem accords_runBinder (hrun : AccordingRunner p fresh run run')
    (hfail : binder'.failures = binder.failures)
    (hsteps : Postponed fresh binder.steps binder'.steps) :
    Accords p fresh at_.thread π Same (runBinder run at_ e binder)
      (runBinder run' at_ e binder') := by
  have hlook : ∀ w : World, Lawful p at_.thread
      (if (w.bindings e).starts ≤ binder.failures then throw (.failure (.binderFailed e))
        else Pure.pure ⟨⟩ : Act Unit) := by
    intro w
    split
    · exact .throw _
    · exact .pure _
  refine (hrun.accords (at_.inside s!"e{e}") hsteps π).bind (fun _ => .bind .get hlook)
    fun π₁ _ _ _ _ => .look (.bind .get hlook) fun π₂ _ c c' _ _ hj => ?_
  rw [hj.matched.tallies.bindings, hfail]
  split
  · exact ⟨rfl, π₂, List.prefix_rfl, hj⟩
  · exact hj.ok rfl

/-- A run of a binder, from its start to its end. -/
theorem accords_complete (hp : p.Sourced) (ha : p.Alike p')
    (hrun : AccordingRunner p fresh run run')
    (hfail : binder'.failures = binder.failures)
    (hsteps : Postponed fresh binder.steps binder'.steps) (hs : c.now.Sound p)
    (ht : c.now.Hosts at_.thread) (hj : Joined p fresh π c c')
    (hidle : (c.now.bindings e).completion = .notStarted) :
    Outcome p fresh Same π (complete p run at_ e binder c) (complete p' run' at_ e binder' c') := by
  have hj₀ : Joined p fresh π (c.started e at_.thread) (c'.started e at_.thread) := by
    refine hj.updateBinding hp e fun d hd => ?_
    rw [hidle] at hd
    cases hd
  have hs₀ : (c.started e at_.thread).now.Sound p := sound_started hs ht
  have hlaw : Lawful p at_.thread (runBinder run at_ e binder) :=
    lawful_runBinder hrun.lawful e binder
  -- whatever the binder has done, it is still active
  have hactive : ∀ {c₁ : Course}, Passage p (c.started e at_.thread) c₁ →
      ∀ d, (c₁.now.bindings e).completion ≠ .complete d := by
    intro c₁ hpass d hd
    rw [active_of_passage hpass] at hd
    cases hd
  have hout := (accords_runBinder (e := e) hrun hfail hsteps).run (List.prefix_refl π) hs₀ ht hj₀
  obtain ⟨π₁, a, a', c₁, c₁', h₁, hj₁, -, hb, hb'⟩ | ⟨π₁, x, c₁, c₁', h₁, hj₁, hb, hb'⟩ := hout.ends
  · have hnot := hactive (hlaw.ok hs₀ ht hb)
    rw [complete_of_ok hb, complete_of_ok hb', ha.attributes]
    exact ⟨π₁, h₁, hj₁.updateBinding hp e fun d hd => absurd hd (hnot d), rfl⟩
  · have hnot := hactive (hlaw.error hs₀ ht hb)
    rw [complete_of_error hb, complete_of_error hb']
    exact ⟨rfl, π₁, h₁, hj₁.updateBinding hp e fun d hd => absurd hd (hnot d)⟩

end

theorem Joined.demanding (hp : p.Sourced) (h : Joined p fresh π c c') (e : Nat) :
    Joined p fresh π (c.demanding e) (c'.demanding e) := by
  have htallies : (c.demanding e).now.Tallies (c'.demanding e).now :=
    ⟨h.matched.tallies.bindings, congrArg (e :: ·) h.matched.tallies.demands,
      h.matched.tallies.collected⟩
  have hext : (c.now.view p mainThread).Extends ((c.demanding e).now.view p mainThread) :=
    extends_of_complete hp fun _ _ hd => hd
  exact h.goOn (h.matched.quiet htallies hext rfl rfl rfl rfl rfl rfl)

/-- An entity is forced alike. -/
theorem accords_force (hp : p.Sourced) (hpp : p.Postpones fresh p')
    (hrun : AccordingRunner p fresh run run') (e : Nat) :
    Accords p fresh at_.thread π Same (force p run at_ e) (force p' run' at_ e) where
  lawful := lawful_force hrun.lawful e
  run {π₁} _ {c c'} hs ht hj := by
    have hj' := hj.demanding hp e
    have hpass : Passage p c (c.demanding e) :=
      World.Agrees.passage ⟨rfl, rfl, rfl, Nat.le_refl _⟩ hs
    have hbehaviour := hpp.alike.behaviour e
    cases hbeh : (p.entity e).behaviour with
    | stub needs here =>
      rw [hbeh] at hbehaviour
      rw [force_of_no_binder (congrArg Behaviour.isSource hbeh),
        force_of_no_binder (congrArg Behaviour.isSource hbehaviour)]
      exact hj'.ok rfl
    | bare finished =>
      rw [hbeh] at hbehaviour
      rw [force_of_no_binder (congrArg Behaviour.isSource hbeh),
        force_of_no_binder (congrArg Behaviour.isSource hbehaviour)]
      exact hj'.ok rfl
    | source wrapped completed binder =>
    obtain ⟨binder', hbeh', hfail, hsteps⟩ := hpp.binders hbeh
    rw [force_source hbeh, force_source hbeh', hj.matched.tallies.bindings]
    cases hd : (c.now.bindings e).demand at_.thread with
    | done => exact hj'.ok rfl
    | reentrant =>
      exact (accords_emit _).run (List.prefix_refl π₁) (hpass.sound hs) (hpass.hosts ht) hj'
    | wait => exact ⟨rfl, π₁, List.prefix_rfl, hj'⟩
    | start =>
      exact accords_complete hp hpp.alike hrun hfail hsteps (hpass.sound hs) (hpass.hosts ht) hj'
        (Binding.demand_start_iff.mp hd)

/-- The forcing loop does the same in both sessions. -/
def according (hp : p.Sourced) (hpp : p.Postpones fresh p')
    (hrun : AccordingRunner p fresh run run') (at_ : Scope) : Pursuing p p' run run' at_ where
  Rel x y := ∀ π, Accords p fresh at_.thread π Same x y
  alike := hpp.alike
  pure_rel _ _ := .pure fun _ _ => rfl
  throw_rel {_ x} _ _ := .throw x
  bind_rel h h' π := (h π).bind (fun a => (h' a π).lawful) fun π₁ _ a b hab => by
    obtain rfl : b = a := hab
    exact h' b π₁
  emit_rel e _ := accords_emit e
  inSpan_rel name fields h π := accords_inSpan name fields (h π)
  view_rel _ := .answer fun _ _ _ hm => hm.tallies.view hpp.alike
  visible_rel e _ := .answer fun _ _ _ hm => hm.tallies.visible hpp.alike e
  force_rel e _ := accords_force hp hpp hrun e

end Session
end Deferral
