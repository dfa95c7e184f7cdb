/-
# What has been forced is begun

Forcing an entity that a binder completes leaves it finished, or finds that the thread is already
completing it: it is begun. What is begun stays as it is, and forcing it again changes nothing.
Where nobody else completes what a reference involves, a round of forcing breaks off only with a
binder.

Key definitions: `Session.Program.IsSource`, `Session.Program.Sourced`, `Session.World.Alone`,
`Session.World.Begun`, `Session.BreaksOff`, `Session.round`.
Key theorems: `Session.force_eq_ok`, `Session.round_begun`, `Session.round_of_begun`,
`Session.round_error`.
-/
import Deferral.Proofs.Conduct

namespace Deferral
namespace Session

variable {p : Program} {run : Runner} {at_ : Scope} {c c' : Course}

/-- The entity at a position is completed by a binder, if it is not complete from the beginning. -/
def Program.IsSource (p : Program) (e : Nat) : Prop :=
  ∃ wrapped completed binder, (p.entity e).behaviour = .source wrapped completed binder

instance (p : Program) (e : Nat) : Decidable (p.IsSource e) :=
  decidable_of_iff ((p.entity e).behaviour.isSource = true) <| by
    unfold Program.IsSource
    cases (p.entity e).behaviour <;> simp [Behaviour.isSource]

/-- The entities of the program are completed by binders. -/
def Program.Sourced (p : Program) : Prop := ∀ e < p.entities.length, p.IsSource e

instance (p : Program) : Decidable p.Sourced :=
  inferInstanceAs (Decidable (∀ e < p.entities.length, p.IsSource e))

theorem Program.entity_of_length_le {e : Nat} (h : p.entities.length ≤ e) :
    p.entity e = .absent := by
  unfold Program.entity
  rw [List.getD_eq_getElem?_getD, List.getElem?_eq_none h]
  rfl

theorem Program.IsSource.lt_length {e : Nat} (h : p.IsSource e) : e < p.entities.length := by
  obtain ⟨wrapped, completed, binder, hbeh⟩ := h
  rcases Nat.lt_or_ge e p.entities.length with hlt | hge
  · exact hlt
  · rw [Program.entity_of_length_le hge] at hbeh
    cases hbeh

theorem Program.Sourced.source_or_absent (h : p.Sourced) (e : Nat) :
    p.IsSource e ∨ p.entity e = .absent := by
  rcases Nat.lt_or_ge e p.entities.length with hlt | hge
  · exact .inl (h e hlt)
  · exact .inr (Program.entity_of_length_le hge)

namespace World

/-- Nobody but the thread `me` is completing an entity that the reference involves. -/
def Alone (w : World) (me : Thread) (r : Reference Nat) : Prop :=
  ∀ e ∈ r.candidate :: r.containers, ∀ t, (w.bindings e).completion = .inProgress t → t = me

/-- The entity at a position is complete or being completed. -/
def Begun (w : World) (e : Nat) : Prop := (w.bindings e).completion ≠ .notStarted

variable {w w' : World} {r : Reference Nat} {me : Thread} {e : Nat}

theorem Alone.later (h : w.Alone me r) (hl : w.Later w') : w'.Alone me r := fun e he t ht =>
  h e he t (((hl.bindings e).inProgress_iff t).mp ht)

theorem Later.begun (hl : w.Later w') (h : w.Begun e) : w'.bindings e = w.bindings e :=
  (hl.bindings e).eq_of_ne h

theorem Begun.later (h : w.Begun e) (hl : w.Later w') : w'.Begun e := by
  rw [Begun, hl.begun h]
  exact h

/-! ### What is seen of what is begun -/

theorem view_finished (hsrc : p.IsSource e) :
    (w.view p me).finished e = (w.bindings e).isFinished := by
  obtain ⟨wrapped, completed, binder, hb⟩ := hsrc
  simp only [view, finished, hb]

theorem view_completingHere (hsrc : p.IsSource e) :
    (w.view p me).completingHere e = (w.bindings e).isInProgressOn me := by
  obtain ⟨wrapped, completed, binder, hb⟩ := hsrc
  simp only [view, completingOn, hb]

theorem visible_source (hsrc : p.IsSource e) :
    w.visible p e = (w.bindings e).completion.data?.getD .plain := by
  obtain ⟨wrapped, completed, binder, hb⟩ := hsrc
  simp only [visible, hb]

theorem Later.finished (hl : w.Later w') (hsrc : p.IsSource e)
    (h : (w.view p me).finished e = true) : (w'.view p me).finished e = true := by
  rw [view_finished hsrc] at h ⊢
  rwa [(hl.bindings e).isFinished h]

/-- An entity that is finished in both worlds or in neither is seen to be the same. -/
theorem Later.shown (hl : w.Later w') (hsrc : p.IsSource e)
    (h : (w.view p me).finished e = (w'.view p me).finished e) :
    (w.view p me).attributes e = (w'.view p me).attributes e := by
  show w.visible p e = w'.visible p e
  rw [view_finished hsrc, view_finished hsrc] at h
  rw [visible_source hsrc, visible_source hsrc]
  cases hf : (w.bindings e).isFinished with
  | true => rw [(hl.bindings e).isFinished hf]
  | false =>
    rw [hf] at h
    simp only [Binding.isFinished, Option.isSome_eq_false_iff, Option.isNone_iff_eq_none] at hf
    have hf' : (w'.bindings e).completion.data? = none := by
      simpa [Binding.isFinished] using h.symm
    rw [hf, hf']

/-- What is begun and not finished is being completed by the only thread that may be. -/
theorem Alone.completingHere (h : w.Alone me r) (he : e ∈ r.candidate :: r.containers)
    (hsrc : p.IsSource e) (hb : w.Begun e) (hf : (w.view p me).finished e = false) :
    (w.view p me).completingHere e = true := by
  rw [view_finished hsrc] at hf
  rw [view_completingHere hsrc]
  cases hc : (w.bindings e).completion with
  | notStarted => exact absurd hc hb
  | inProgress t =>
    obtain rfl : t = me := h e he t hc
    simp [Binding.isInProgressOn, hc]
  | complete d => simp [Binding.isFinished, Completion.data?, hc] at hf

end World

/-! ### Forcing -/

/-- What is begun here is forced without effect. -/
theorem force_of_begun (run : Runner) {e : Nat} (hsrc : p.IsSource e) (hb : c.now.Begun e)
    (hme : ∀ t, (c.now.bindings e).completion = .inProgress t → t = at_.thread) :
    ∃ c', force p run at_ e c = .ok ⟨⟩ c' ∧ c'.now.bindings = c.now.bindings := by
  obtain ⟨wrapped, completed, binder, hbeh⟩ := hsrc
  rw [force_source hbeh]
  cases hc : (c.now.bindings e).completion with
  | notStarted => exact absurd hc hb
  | inProgress t =>
    rw [Binding.demand_reentrant_iff.mpr (hme t hc ▸ hc)]
    obtain ⟨c₁, log, h₁, hlog⟩ := emit_runs at_ _ (c.demanding e)
    exact ⟨c₁, h₁, by rw [hlog]; rfl⟩
  | complete d =>
    rw [Binding.demand_done_iff.mpr ⟨d, hc⟩]
    exact ⟨_, rfl, rfl⟩

/-- A demand that returns has found the entity complete, or being completed here, or it has run the
binder. -/
theorem force_eq_ok {e : Nat} {wrapped completed : Bool} {binder : Binder}
    (hbeh : (p.entity e).behaviour = .source wrapped completed binder)
    (h : force p run at_ e c = .ok ⟨⟩ c') :
    ((∃ d, (c.now.bindings e).completion = .complete d) ∧ c' = c.demanding e) ∨
      ((c.now.bindings e).completion = .inProgress at_.thread ∧
        ∃ log, c'.now = { (c.demanding e).now with log }) ∨
      ∃ c₁ : Course, c' = c₁.goOn (c₁.now.updateBinding e (·.finish (p.entity e).attributes)) := by
  rw [force_source hbeh] at h
  cases hd : (c.now.bindings e).demand at_.thread with
  | done =>
    rw [hd] at h
    cases h
    exact .inl ⟨Binding.demand_done_iff.mp hd, rfl⟩
  | reentrant =>
    rw [hd] at h
    exact .inr (.inl ⟨Binding.demand_reentrant_iff.mp hd, emit_ok h⟩)
  | wait =>
    rw [hd] at h
    cases h
  | start =>
    rw [hd] at h
    cases hr : runBinder run at_ e binder ((c.demanding e).started e at_.thread) with
    | ok a c₁ =>
      simp only [complete_of_ok hr] at h
      cases h
      exact .inr (.inr ⟨c₁, rfl⟩)
    | error x c₁ =>
      simp only [complete_of_error hr] at h
      cases h

/-- What has been forced is begun. -/
theorem force_begun {e : Nat} (hsrc : p.IsSource e) (h : force p run at_ e c = .ok ⟨⟩ c') :
    c'.now.Begun e := by
  obtain ⟨wrapped, completed, binder, hbeh⟩ := hsrc
  rcases force_eq_ok hbeh h with ⟨⟨d, hc⟩, rfl⟩ | ⟨hc, log, hlog⟩ | ⟨c₁, rfl⟩
  · show (c.now.bindings e).completion ≠ .notStarted
    simp [hc]
  · rw [hlog]
    show (c.now.bindings e).completion ≠ .notStarted
    simp [hc]
  · simp [World.Begun, Course.goOn, World.updateBinding, Binding.finish]

/-- On its way from `c` to `c'` a call in this scope has come to `c₁`, started the binder of an
entity that the reference involves, and come to `c₂` in that run, which breaks off with `x`. There
the entity is given up, and nothing is undone of the way to `c'`. -/
inductive BreaksOff (p : Program) (run : Runner) (at_ : Scope) (r : Reference Nat) (c : Course)
    (x : Interruption) (c' : Course) : Prop
  | inBinder {e : Nat} {wrapped completed : Bool} {binder : Binder} {c₁ c₂ : Course}
      (involved : e ∈ r.candidate :: r.containers)
      (source : (p.entity e).behaviour = .source wrapped completed binder)
      (reached : c.worlds <:+ c₁.worlds)
      (started : (c₁.now.bindings e).demand at_.thread = .start)
      (broken : runBinder run at_ e binder (c₁.started e at_.thread) = .error x c₂)
      (passed : (c₂.goOn (c₂.now.updateBinding e (·.abandon))).worlds <:+ c'.worlds)

/-- Where nobody else completes an entity, forcing it breaks off only with its binder. -/
theorem force_error {r : Reference Nat} {e : Nat} {x : Interruption}
    (he : e ∈ r.candidate :: r.containers) (hsrc : p.IsSource e)
    (halone : c.now.Alone at_.thread r) (h : force p run at_ e c = .error x c') :
    BreaksOff p run at_ r c x c' := by
  obtain ⟨wrapped, completed, binder, hbeh⟩ := hsrc
  rw [force_source hbeh] at h
  cases hd : (c.now.bindings e).demand at_.thread with
  | done =>
    rw [hd] at h
    cases h
  | reentrant =>
    rw [hd] at h
    obtain ⟨c₁, -, h₁, -⟩ := emit_runs at_ _ (c.demanding e)
    cases h₁.symm.trans h
  | wait =>
    obtain ⟨t, hne, hc⟩ := Binding.demand_wait_iff.mp hd
    have hme : t = at_.thread := halone e he t hc
    exact absurd hme hne
  | start =>
    rw [hd] at h
    cases hr : runBinder run at_ e binder ((c.demanding e).started e at_.thread) with
    | ok a c₁ =>
      simp only [complete_of_ok hr] at h
      cases h
    | error x' c₁ =>
      simp only [complete_of_error hr] at h
      cases h
      have hstart : ((c.demanding e).now.bindings e).demand at_.thread = .start := hd
      exact .inBinder he hbeh (List.suffix_cons _ _) hstart hr List.suffix_rfl

/-! ### Rounds -/

section Rounds

variable {name : String} {r : Reference Nat} {k : Standing} {n : Nat}

/-- What a part of a call breaks off with, the call breaks off with. -/
theorem BreaksOff.within {c₁ c₁' : Course} {x : Interruption} (h : BreaksOff p run at_ r c₁ x c₁')
    (hp : c.worlds <:+ c₁.worlds) (hp' : c₁'.worlds <:+ c'.worlds) :
    BreaksOff p run at_ r c x c' := by
  cases h with
  | inBinder involved source reached started broken passed =>
    exact .inBinder involved source (hp.trans reached) started broken (passed.trans hp')

theorem forceAll_begun (hrun : LawfulRunner p run) : ∀ {es : List Nat} {c : Course},
    (∀ e ∈ es, p.IsSource e) → c.now.Sound p → c.now.Hosts at_.thread →
      (host p run at_ name).forceAll es c = .ok ⟨⟩ c' → ∀ e ∈ es, c'.now.Begun e
  | [], _, _, _, _, _ => by simp
  | e :: es, c, hsrc, hs, ht, h => by
    obtain ⟨u, c₁, h₁, h⟩ := Act.bind_eq_ok h
    have hp := (lawful_force hrun e).ok hs ht h₁
    have hs₁ : c₁.now.Sound p := hp.sound hs
    have ht₁ : c₁.now.Hosts at_.thread := hp.hosts ht
    have hrest := (lawful_forceAll (h := host p run at_ name) (lawful_force hrun) es).ok hs₁ ht₁ h
    intro d hd
    rcases List.mem_cons.mp hd with rfl | hd
    · have hb₁ : c₁.now.Begun d := force_begun (hsrc d List.mem_cons_self) h₁
      exact hb₁.later hrest.later
    · have hsrc' : ∀ d ∈ es, p.IsSource d := fun d hd => hsrc d (List.mem_cons_of_mem _ hd)
      exact forceAll_begun hrun hsrc' hs₁ ht₁ h d hd

theorem forceAll_of_begun (run : Runner) (name : String) : ∀ {es : List Nat} {c : Course},
    (∀ e ∈ es, p.IsSource e ∧ c.now.Begun e ∧
      ∀ t, (c.now.bindings e).completion = .inProgress t → t = at_.thread) →
      ∃ c', (host p run at_ name).forceAll es c = .ok ⟨⟩ c' ∧ c'.now.bindings = c.now.bindings
  | [], c, _ => ⟨c, rfl, rfl⟩
  | e :: es, c, h => by
    obtain ⟨hsrc, hb, hme⟩ := h e List.mem_cons_self
    obtain ⟨c₁, h₁, hb₁⟩ := force_of_begun run hsrc hb hme
    obtain ⟨c₂, h₂, hb₂⟩ := forceAll_of_begun run name fun d hd => by
      rw [World.Begun, hb₁]
      exact h d (List.mem_cons_of_mem _ hd)
    exact ⟨c₂, (Act.bind_of_ok h₁).trans h₂, hb₂.trans hb₁⟩

theorem forceAll_error (hrun : LawfulRunner p run) {x : Interruption} :
    ∀ {es : List Nat} {c : Course},
      (∀ e ∈ es, e ∈ r.candidate :: r.containers ∧ p.IsSource e) → c.now.Sound p →
        c.now.Hosts at_.thread → c.now.Alone at_.thread r →
          (host p run at_ name).forceAll es c = .error x c' → BreaksOff p run at_ r c x c'
  | [], _, _, _, _, _, h => by cases h
  | e :: es, c, hes, hs, ht, halone, h => by
    obtain ⟨he, hsrc⟩ := hes e List.mem_cons_self
    cases h₁ : force p run at_ e c with
    | error x' c₁ =>
      cases (Act.bind_of_error h₁).symm.trans h
      exact force_error he hsrc halone h₁
    | ok u c₁ =>
      have hp := (lawful_force hrun e).ok hs ht h₁
      have halone₁ : c₁.now.Alone at_.thread r := halone.later hp.later
      have hes' : ∀ d ∈ es, d ∈ r.candidate :: r.containers ∧ p.IsSource d :=
        fun d hd => hes d (List.mem_cons_of_mem _ hd)
      have hrest : (host p run at_ name).forceAll es c₁ = .error x c' :=
        (Act.bind_of_ok h₁).symm.trans h
      have hoff : BreaksOff p run at_ r c₁ x c' :=
        forceAll_error hrun hes' (hp.sound hs) (hp.hosts ht) halone₁ hrest
      exact hoff.within hp.suffix List.suffix_rfl

/-- What a round forces. -/
def forced (r : Reference Nat) (k : Standing) : List Nat :=
  if k = .pendingAmbiguous then r.candidate :: r.containers else [r.candidate]

theorem mem_involved_of_mem_forced {e : Nat} (h : e ∈ forced r k) :
    e ∈ r.candidate :: r.containers := by
  unfold forced at h
  split at h
  · exact h
  · exact List.mem_singleton.mp h ▸ List.mem_cons_self

theorem candidate_mem_forced : r.candidate ∈ forced r k := by
  unfold forced
  split <;> exact List.mem_cons_self

/-- A round of forcing, with its notice. -/
def round (p : Program) (run : Runner) (at_ : Scope) (name : String) (r : Reference Nat)
    (k : Standing) (n : Nat) : Act Unit := do
  (host p run at_ name).announce (.forcing n k)
  (host p run at_ name).forceRound r k

theorem forceRound_eq :
    (host p run at_ name).forceRound r k = (host p run at_ name).forceAll (forced r k) := by
  unfold Host.forceRound forced
  split
  · rfl
  · rfl

theorem lawful_round (hrun : LawfulRunner p run) :
    Lawful p at_.thread (round p run at_ name r k n) :=
  (lawful_emit at_ _).bind fun _ => lawful_forceRound (lawful_force hrun) r k

theorem round_begun (hrun : LawfulRunner p run)
    (hsrc : ∀ e ∈ r.candidate :: r.containers, p.IsSource e) (hs : c.now.Sound p)
    (ht : c.now.Hosts at_.thread) (h : round p run at_ name r k n c = .ok ⟨⟩ c') :
    ∀ e ∈ forced r k, c'.now.Begun e := by
  obtain ⟨u, c₁, h₁, h⟩ := Act.bind_eq_ok h
  have hp := (lawful_emit at_ _).ok hs ht h₁
  have hforced : ∀ e ∈ forced r k, p.IsSource e :=
    fun e he => hsrc e (mem_involved_of_mem_forced he)
  rw [forceRound_eq] at h
  exact forceAll_begun hrun hforced (hp.sound hs) (hp.hosts ht) h

theorem round_of_begun (run : Runner) (name : String) (n : Nat)
    (hsrc : ∀ e ∈ r.candidate :: r.containers, p.IsSource e)
    (halone : c.now.Alone at_.thread r) (hb : ∀ e ∈ forced r k, c.now.Begun e) :
    ∃ c', round p run at_ name r k n c = .ok ⟨⟩ c' ∧ c'.now.bindings = c.now.bindings := by
  obtain ⟨c₁, log, h₁, hlog⟩ := emit_runs at_ (noticeEntry name (.forcing n k)) c
  have hb₁ : c₁.now.bindings = c.now.bindings := by rw [hlog]
  obtain ⟨c₂, h₂, hb₂⟩ := forceAll_of_begun (c := c₁) run name fun e (he : e ∈ forced r k) => by
      have hi := mem_involved_of_mem_forced he
      rw [World.Begun, hb₁]
      exact ⟨hsrc e hi, hb e he, halone e hi⟩
  refine ⟨c₂, (Act.bind_of_ok h₁).trans ?_, hb₂.trans hb₁⟩
  rw [forceRound_eq]
  exact h₂

theorem round_error (hrun : LawfulRunner p run) {x : Interruption}
    (hsrc : ∀ e ∈ r.candidate :: r.containers, p.IsSource e) (hs : c.now.Sound p)
    (ht : c.now.Hosts at_.thread) (halone : c.now.Alone at_.thread r)
    (h : round p run at_ name r k n c = .error x c') : BreaksOff p run at_ r c x c' := by
  obtain ⟨c₁, -, h₁, -⟩ := emit_runs at_ (noticeEntry name (.forcing n k)) c
  have hp := (lawful_emit at_ _).ok hs ht h₁
  have hforced : ∀ e ∈ forced r k, e ∈ r.candidate :: r.containers ∧ p.IsSource e := by
    intro e he
    have hi := mem_involved_of_mem_forced he
    exact ⟨hi, hsrc e hi⟩
  have hrest : (host p run at_ name).forceRound r k c₁ = .error x c' :=
    (Act.bind_of_ok h₁).symm.trans h
  rw [forceRound_eq] at hrest
  have hoff : BreaksOff p run at_ r c₁ x c' :=
    forceAll_error hrun hforced (hp.sound hs) (hp.hosts ht) (halone.later hp.later) hrest
  exact hoff.within hp.suffix List.suffix_rfl

end Rounds

end Session
end Deferral
