/-
# What is undecided stays undecided while its binder runs

A pursuit that leaves its reference undecided has forced all that the reference waits for, and
found an entity that the reference involves in completion on the calling thread. What is begun stays
as it is until the binder returns that began it, and the caller is nested in that binder. So the
reference awaits that binder in every later world, and while it does, no check of it is resolved,
whoever else pursues it meanwhile.

Key definitions: `Session.World.Awaiting`, `Session.World.Undecided`.
Key theorems: `Session.World.Awaiting.later`, `Session.awaiting_of_pursueFrom`,
`Session.undecided_of_resolve?`.
-/
import Deferral.Proofs.Grounded
import Deferral.Proofs.ShortPursuit
import Deferral.Proofs.Walks

namespace Deferral
namespace Session

variable {p : Program} {run : Runner} {at_ : Scope} {me : Thread} {w w' : World} {c c' : Course}
variable {opts : Options} {rule : CheckRule} {r : Reference Nat}

/-! ### Awaiting a binder -/

/-- The reference is pending, what it waits for is begun, and the thread `me` is completing an
entity that it involves. -/
structure World.Awaiting (p : Program) (me : Thread) (w : World) (opts : Options)
    (rule : CheckRule) (r : Reference Nat) : Prop where
  pending : (w.standing p opts rule r).decision? = none
  begun : ∀ e ∈ forced r (w.standing p opts rule r), w.Begun e
  owned : ∃ e ∈ r.candidate :: r.containers, (w.bindings e).completion = .inProgress me

/-- A reference that awaits a binder stands the same in every later world. -/
theorem World.Awaiting.standing_eq (hsrc : ∀ e ∈ r.candidate :: r.containers, p.IsSource e)
    (h : w.Awaiting p me opts rule r) (hl : w.Later w') :
    w'.standing p opts rule r = w.standing p opts rule r := by
  rcases Standing.pending_iff.mp h.pending with hk | hk
  · -- only the candidate is awaited: it stays unfinished, and the containers stay finished
    have hcand : p.IsSource r.candidate := hsrc _ List.mem_cons_self
    have hunfinished := rule.unfinished_of_pendingCompletion hk
    have hsame : w'.bindings r.candidate = w.bindings r.candidate :=
      hl.begun (h.begun _ candidate_mem_forced)
    have hunfinished' : (w'.view p mainThread).finished r.candidate = false := by
      rw [view_finished hcand] at hunfinished ⊢
      rwa [hsame]
    have hdecided := hk
    rw [World.standing, rule.standing_of_unfinished hunfinished, pendingOn_eq_pendingCompletion]
      at hdecided
    rw [hk, World.standing, rule.standing_of_unfinished hunfinished',
      pendingOn_eq_pendingCompletion]
    rw [Bool.or_eq_true, List.all_eq_true] at hdecided ⊢
    refine hdecided.imp id fun hall e he => ?_
    exact hl.finished (hsrc e (List.mem_cons_of_mem _ he)) (hall e he)
  · refine (rule.standing_congr fun e he => ?_).symm
    have hforced : e ∈ forced r (w.standing p opts rule r) := by
      rwa [hk, forced, if_pos rfl]
    have hfinished : (w.view p mainThread).finished e = (w'.view p mainThread).finished e := by
      rw [view_finished (hsrc e he), view_finished (hsrc e he), hl.begun (h.begun e hforced)]
    exact ⟨hfinished, hl.shown (hsrc e he) hfinished⟩

/-- Whatever an action does, a reference still awaits the binder that it awaited. -/
theorem World.Awaiting.later (hsrc : ∀ e ∈ r.candidate :: r.containers, p.IsSource e)
    (h : w.Awaiting p me opts rule r) (hl : w.Later w') : w'.Awaiting p me opts rule r := by
  have heq := h.standing_eq hsrc hl
  obtain ⟨e, he, howned⟩ := h.owned
  refine ⟨?_, fun e he => ?_, e, he, ((hl.bindings e).inProgress_iff me).mpr howned⟩
  · rw [heq]
    exact h.pending
  · rw [heq] at he
    exact (h.begun e he).later hl

/-! ### What leaves a reference undecided -/

section

variable {name : String} {rounds n : Nat}

theorem awaiting_of_stall (hrun : LawfulRunner p run)
    (hsrc : ∀ e ∈ r.candidate :: r.containers, p.IsSource e) (hs : c.now.Sound p)
    (ht : c.now.Hosts at_.thread) (halone : c.now.Alone at_.thread r)
    (hk : (rule.standing opts (c.now.view p at_.thread) r).decision? = none)
    (hr : round p run at_ name r (rule.standing opts (c.now.view p at_.thread) r) n c =
      .ok ⟨⟩ c')
    (hle : unfinishedCount (c.now.view p at_.thread) r ≤
      unfinishedCount (c'.now.view p at_.thread) r) :
    c'.now.Awaiting p at_.thread opts rule r ∧
      involvesCompletingHere (c'.now.view p at_.thread) r = true := by
  have hl := ((lawful_round hrun).ok hs ht hr).later
  have hbegun := round_begun hrun hsrc hs ht hr
  obtain ⟨hsame, hown⟩ := owner_of_stall hsrc halone hl hk hbegun hle
  obtain ⟨e, he, hhere⟩ := List.any_eq_true.mp hown
  rw [World.view_completingHere (hsrc e he), Binding.isInProgressOn, beq_iff_eq] at hhere
  refine ⟨⟨?_, ?_, e, he, hhere⟩, hown⟩
  · rw [← World.standing_eq p c'.now at_.thread, hsame]
    exact hk
  · rw [← World.standing_eq p c'.now at_.thread, hsame]
    exact hbegun

theorem World.Awaiting.log (h : w.Awaiting p me opts rule r) (log : List Entry) :
    World.Awaiting p me { w with log } opts rule r := ⟨h.pending, h.begun, h.owned⟩

/-- A pursuit leaves undecided only what awaits a binder. -/
theorem awaiting_of_pursueFrom (hrun : LawfulRunner p run)
    (hsrc : ∀ e ∈ r.candidate :: r.containers, p.IsSource e) (hs : c.now.Sound p)
    (ht : c.now.Hosts at_.thread) (halone : c.now.Alone at_.thread r)
    (h : pursueFrom (host p run at_ name) (rule.standing opts) r
      (unfinishedCount (c.now.view p at_.thread) r) rounds c = .ok ⟨.undecided, n⟩ c') :
    c'.now.Awaiting p at_.thread opts rule r := by
  induction hm : unfinishedCount (c.now.view p at_.thread) r using Nat.strongRecOn
    generalizing rounds c with
  | ind remaining ih =>
  subst hm
  cases hk : (rule.standing opts (c.now.view p at_.thread) r).decision? with
  | some d =>
    rw [pursueFrom_of_decided hk] at h
    cases h
  | none =>
  cases hr : round p run at_ name r (rule.standing opts (c.now.view p at_.thread) r)
      (rounds + 1) c with
  | error x c₁ =>
    rw [pursueFrom_of_error hk hr] at h
    cases h
  | ok u c₁ =>
  have hpass := (lawful_round hrun).ok hs ht hr
  rcases Nat.lt_or_ge (unfinishedCount (c₁.now.view p at_.thread) r)
    (unfinishedCount (c.now.view p at_.thread) r) with hlt | hle
  · rw [pursueFrom_of_progress hk hr hlt] at h
    exact ih _ hlt (hpass.sound hs) (hpass.hosts ht) (halone.later hpass.later) h rfl
  · obtain ⟨hawait, hown⟩ := awaiting_of_stall hrun hsrc hs ht halone hk hr hle
    obtain ⟨c₂, log, hp, hlog⟩ := pursueFrom_of_owner hk hr hle hown
    cases hp.symm.trans h
    rw [hlog]
    exact hawait.log log

end

theorem awaiting_of_pursueCheck {candidate : Nat} {ctx : Context} (hrun : LawfulRunner p run)
    (hsrc : ∀ e ∈ candidate :: p.chain ctx.containing, p.IsSource e) (hs : c.now.Sound p)
    (ht : c.now.Hosts at_.thread) (halone : ∀ r, c.now.Alone at_.thread r)
    (h : pursueCheck p run at_ rule candidate ctx opts c = .ok none c') :
    c'.now.Awaiting p at_.thread opts rule (p.reference candidate ctx) := by
  obtain ⟨⟨ending, rounds⟩, c₁, hp, h⟩ := Act.bind_eq_ok h
  cases ending with
  | decided d => cases h
  | undecided =>
    cases h
    exact awaiting_of_pursueFrom hrun hsrc hs ht (halone _) hp
  | stalled k => cases h

/-- A check leaves undecided only what awaits a binder. -/
theorem awaiting_of_compute {call candidate : Nat} {ctx : Context} (hrun : LawfulRunner p run)
    (hsrc : ∀ e ∈ candidate :: p.chain ctx.containing, p.IsSource e) (hs : c.now.Sound p)
    (ht : c.now.Hosts at_.thread) (halone : ∀ r, c.now.Alone at_.thread r)
    (h : compute p run at_ call (.check rule candidate ctx opts) c = .ok none c') :
    c'.now.Awaiting p at_.thread opts rule (p.reference candidate ctx) := by
  obtain ⟨c₁, c₂, s, log, log', h₁, hp, h₂, hnone⟩ := compute_check_ok h
  obtain rfl : s = none := Option.not_isSome_iff_eq_none.mp (by simp [hnone])
  have hagree : c.now.Agrees c₁.now := by
    rw [h₁]
    exact ⟨rfl, rfl, rfl, Nat.le_refl _⟩
  have hlater : c.now.Later c₁.now :=
    .of_eq hagree.bindings hagree.cells hagree.bags hagree.nextThread
  rw [h₂]
  refine World.Awaiting.log ?_ log'
  exact awaiting_of_pursueCheck hrun hsrc
    (hs.of_eq hagree.bindings hagree.cells hagree.nextThread) (ht.later hlater)
    (fun r => (halone r).later hlater) hp

/-! ### Diagnostics that stay undecided -/

/-- The diagnostic is known, or checks a reference between entities with binders. -/
def Cell.Sourced (p : Program) : Cell → Prop
  | .known _ => True
  | .deferred (.check _ candidate ctx _) _ _ =>
    ∀ e ∈ candidate :: p.chain ctx.containing, p.IsSource e
  | .deferred _ _ _ => False

instance (p : Program) : ∀ d : Cell, Decidable (d.Sourced p)
  | .known _ => isTrue trivial
  | .deferred (.check _ candidate ctx _) _ _ =>
    inferInstanceAs (Decidable (∀ e ∈ candidate :: p.chain ctx.containing, p.IsSource e))
  | .deferred (.constant _) _ _ => isFalse id
  | .deferred (.scripted _ _ _) _ _ => isFalse id

theorem Cell.Sourced.later {d d' : Cell} (h : d.Sourced p) (hl : d.Later d') : d'.Sourced p := by
  cases d with
  | known o =>
    rw [show d' = .known o from hl]
    trivial
  | deferred comp slot calls =>
    obtain ⟨slot', calls', rfl, -⟩ := hl
    cases comp with
    | check rule candidate ctx opts => exact h
    | constant f => exact h
    | scripted name plan during => exact h

/-- The diagnostic checks a reference that awaits a binder of the thread `me`. -/
def World.Undecided (p : Program) (me : Thread) (w : World) (cell : Nat) : Prop :=
  ∃ rule candidate ctx opts slot calls,
    w.cells[cell]? = some (.deferred (.check rule candidate ctx opts) slot calls) ∧
      (∀ e ∈ candidate :: p.chain ctx.containing, p.IsSource e) ∧
      w.Awaiting p me opts rule (p.reference candidate ctx)

section

variable {cell : Nat}

theorem World.Undecided.later (h : w.Undecided p me cell) (hl : w.Later w') :
    w'.Undecided p me cell := by
  obtain ⟨rule, candidate, ctx, opts, slot, calls, hc, hsrc, hawait⟩ := h
  obtain ⟨_, hc', slot', calls', rfl, -⟩ := hl.cells cell _ hc
  exact ⟨rule, candidate, ctx, opts, slot', calls', hc', hsrc, hawait.later hsrc hl⟩

/-- Nothing is memoized for a check that awaits a binder. -/
theorem World.Undecided.result?_eq_none (h : w.Undecided p me cell) {t : Thread}
    (hg : w.Grounded p t) : w.result? cell = none := by
  obtain ⟨rule, candidate, ctx, opts, slot, calls, hc, -, hawait⟩ := h
  rw [World.result?, hc]
  show slot.stored = none
  cases hst : slot.stored with
  | none => rfl
  | some o =>
    have hground : (Cell.deferred (.check rule candidate ctx opts) slot calls).Grounded p w :=
      hg.checks _ (List.mem_of_getElem? hc)
    obtain ⟨d, hd⟩ := hground (by rw [hst]; rfl)
    rw [hawait.pending] at hd
    cases hd

/-- A resolution that answers nothing leaves its diagnostic undecided. -/
theorem undecided_of_resolve? (hrun : LawfulRunner p run) {d : Cell}
    (hc : c.now.cells[cell]? = some d) (hd : d.Sourced p) (hs : c.now.Sound p)
    (ht : c.now.Hosts at_.thread) (halone : ∀ r, c.now.Alone at_.thread r)
    (h : resolve? p run at_ cell c = .ok none c') : c'.now.Undecided p at_.thread cell := by
  cases hres : d.result? with
  | some o =>
    rw [resolve?_of_result hc hres] at h
    cases h
  | none =>
  cases d with
  | known o => cases hres
  | deferred comp slot calls =>
  cases comp with
  | constant f => exact absurd hd id
  | scripted name plan during => exact absurd hd id
  | check rule candidate ctx opts =>
  rw [resolve?_of_empty hc hres] at h
  obtain ⟨f, c₁, hcomp, h⟩ := Act.bind_eq_ok h
  have hcounted : Passage p c (c.counting cell (.check rule candidate ctx opts) slot calls) :=
    passage_count hs hc
  have hpass := (lawful_compute hrun calls (.check rule candidate ctx opts)).ok (hcounted.sound hs)
    (hcounted.hosts ht) hcomp
  obtain ⟨_, hc₁, slot', calls', rfl, -⟩ := (hcounted.later.trans hpass.later).cells cell _ hc
  cases f with
  | some f =>
    obtain ⟨hsome, -⟩ := keepFinding_of_deferred hc₁ h
    cases hsome
  | none =>
    have hawait := awaiting_of_compute hrun hd (hcounted.sound hs) (hcounted.hosts ht)
      (fun r => (halone r).later hcounted.later) hcomp
    obtain ⟨u, c₂, hemit, h⟩ := Act.bind_eq_ok h
    cases h
    obtain ⟨log, hlog⟩ := emit_ok hemit
    rw [hlog]
    exact ⟨rule, candidate, ctx, opts, slot', calls', hc₁, hd, hawait.log log⟩

end

end Session
end Deferral
