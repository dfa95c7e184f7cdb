/-
# Containers that are not heeded

A rule that does not heed containers looks at the candidate alone. The forcing loop still counts the
containers that are unfinished and asks who is completing them. All the same, where the candidate
has a binder this makes no difference: the first round forces the candidate, and then either it is
finished, which is progress whatever the containers do, or this thread is completing it, and then
nothing has changed at all. So the loop takes the same turns as for a site outside of everything,
which are so few that they can be written down without a loop.

Key definitions: `Reference.alone`, `pursueCandidate`, `Session.World.Ripens`.
Key theorems: `Session.CheckRule.standing_unheeded`, `Session.force_settles`,
`Session.pursue_eq_pursueCandidate`.
-/
import Deferral.Proofs.ShortPursuit
import Deferral.Proofs.Correspondence

namespace Deferral

/-! ### Standings -/

section

variable {ε : Type}

/-- The same reference from a site that nothing encloses. -/
def Reference.alone (r : Reference ε) : Reference ε := { r with containers := [] }

/-- Forces the candidate once, unless the rule gives a decision before, and nothing else. -/
def pursueCandidate {m : Type → Type} [Monad m] (h : Host m ε)
    (rule : View ε → Reference ε → Standing) (r : Reference ε) : m Pursuit := do
  let c := rule (← h.view) r
  match c.decision? with
  | some t => return ⟨.decided t, 0⟩
  | none =>
    h.announce (.forcing 1 c)
    h.force r.candidate
    match (rule (← h.view) r).decision? with
    | some t => return ⟨.decided t, 1⟩
    | none =>
      h.announce (.undecided c)
      return ⟨.undecided, 1⟩

namespace Session
namespace CheckRule

variable {rule : CheckRule} {o : Options} {v : View ε} {r : Reference ε}

/-- Where a reference stands by a rule that does not heed containers. -/
theorem standing_unheeded (h : rule.heedsContainers o = false) (v : View ε) (r : Reference ε) :
    rule.standing o v r =
      if v.finished r.candidate = false then .pendingCompletion
      else if rule.marks (v.attributes r.candidate) = false ∨ rule.exempts o r.flags = true then
        .inapplicable
      else .reportable := by
  rw [rule.standing_eq, h]
  rfl

theorem standing_alone (h : rule.heedsContainers o = false) (v : View ε) (r : Reference ε) :
    rule.standing o v r.alone = rule.standing o v r := by
  rw [standing_unheeded h, standing_unheeded h]
  rfl

/-- Nothing is awaited but the candidate. -/
theorem pending_unheeded (h : rule.heedsContainers o = false) :
    (rule.standing o v r).decision? = none ↔ v.finished r.candidate = false := by
  rw [standing_unheeded h]
  split
  · exact ⟨fun _ => ‹_›, fun _ => rfl⟩
  · split
    · simp_all [Standing.decision?]
    · simp_all [Standing.decision?]

theorem standing_of_pending (h : rule.heedsContainers o = false)
    (hk : (rule.standing o v r).decision? = none) : rule.standing o v r = .pendingCompletion := by
  rw [standing_unheeded h, if_pos ((pending_unheeded h).mp hk)]

end CheckRule
end Session

/-- What finishes the candidate makes progress, if nothing becomes unfinished meanwhile. -/
theorem unfinishedCount_lt {v v' : View ε} {r : Reference ε}
    (h : ∀ e, v.finished e = true → v'.finished e = true) (hf : v.finished r.candidate = false)
    (hf' : v'.finished r.candidate = true) : unfinishedCount v' r < unfinishedCount v r := by
  by_contra hge
  have heq := finished_of_unfinishedCount_eq (fun e _ => h e) (Nat.le_of_not_lt hge)
    r.candidate List.mem_cons_self
  rw [hf, hf'] at heq
  cases heq

end

namespace Session

variable {p : Program} {run : Runner} {at_ : Scope} {c c' : Course}

/-! ### Forcing the candidate -/

/-- What is finished stays finished. -/
def World.Ripens (p : Program) (w w' : World) : Prop :=
  ∀ e, w.finished p e = true → w'.finished p e = true

/-- A demand for an entity with a binder finishes nothing by itself. -/
theorem finished_demanding {e : Nat} (hsrc : p.IsSource e) :
    (c.demanding e).now.finished p = c.now.finished p := by
  obtain ⟨wrapped, completed, binder, hbeh⟩ := hsrc
  funext d
  unfold World.finished
  by_cases hde : d = e
  · subst hde
    rw [hbeh]
    rfl
  · have hcount : (c.demanding e).now.demands.count d = c.now.demands.count d :=
      List.count_cons_of_ne (Ne.symm hde)
    rw [hcount]
    rfl

/-- What has been forced is finished, or else this thread is completing it and nothing has been
finished by it. -/
theorem force_settles {e : Nat} (hsrc : p.IsSource e) (h : force p run at_ e c = .ok ⟨⟩ c') :
    c'.now.finished p e = true ∨
      (c'.now.view p at_.thread).completingHere e = true ∧
        c'.now.finished p = c.now.finished p := by
  have hview : ∀ w : World, (w.view p at_.thread).finished e = (w.bindings e).isFinished :=
    fun _ => World.view_finished hsrc
  have hquiet := finished_demanding (c := c) hsrc
  obtain ⟨wrapped, completed, binder, hbeh⟩ := hsrc
  rcases force_eq_ok hbeh h with ⟨⟨d, hc⟩, rfl⟩ | ⟨hc, log, hlog⟩ | ⟨c₁, rfl⟩
  · left
    show (World.view _ p at_.thread).finished e = true
    rw [hview]
    show (c.now.bindings e).isFinished = true
    simp [Binding.isFinished, Completion.data?, hc]
  · right
    rw [hlog]
    refine ⟨?_, hquiet⟩
    rw [World.view_completingHere ⟨wrapped, completed, binder, hbeh⟩]
    show (c.now.bindings e).isInProgressOn at_.thread = true
    simp [Binding.isInProgressOn, hc]
  · left
    show (World.view _ p at_.thread).finished e = true
    rw [hview]
    simp [Course.goOn, World.updateBinding, Binding.finish, Binding.isFinished, Completion.data?]

/-! ### The loop without a loop -/

section

variable {name : String} {rule : CheckRule} {r : Reference Nat}

theorem round_unheeded (n : Nat) :
    round p run at_ name r .pendingCompletion n = (do
      (host p run at_ name).announce (.forcing n .pendingCompletion)
      (host p run at_ name).force r.candidate) := by
  unfold round Host.forceRound
  exact congrArg _ (funext fun _ => Act.bind_pure _)

theorem pursueCandidate_of_decided {d : Decision}
    (h : (rule.standing opts (c.now.view p at_.thread) r).decision? = some d) :
    pursueCandidate (host p run at_ name) (rule.standing opts) r c =
      .ok ⟨.decided d, 0⟩ c := by
  rw [pursueCandidate, host_view_bind]
  simp only [h]
  rfl

theorem pursueCandidate_of_pending (hoff : rule.heedsContainers opts = false)
    (h : (rule.standing opts (c.now.view p at_.thread) r).decision? = none) :
    pursueCandidate (host p run at_ name) (rule.standing opts) r c =
      (round p run at_ name r .pendingCompletion 1 >>= fun _ => do
        match (rule.standing opts (← (host p run at_ name).view) r).decision? with
        | some t => return ⟨.decided t, 1⟩
        | none =>
          (host p run at_ name).announce (.undecided .pendingCompletion)
          return ⟨.undecided, 1⟩ : Act Pursuit) c := by
  rw [pursueCandidate, host_view_bind, round_unheeded, Act.bind_assoc]
  simp only [CheckRule.standing_of_pending hoff h]
  rfl

/-- Without heed to containers, the loop forces the candidate once at most and nothing else. -/
theorem pursue_eq_pursueCandidate (hoff : rule.heedsContainers opts = false)
    (hsrc : p.IsSource r.candidate)
    (hripens : ∀ c c', force p run at_ r.candidate c = .ok ⟨⟩ c' → c.now.Ripens p c'.now) :
    pursue (host p run at_ name) (rule.standing opts) r =
      pursueCandidate (host p run at_ name) (rule.standing opts) r := by
  funext c
  show pursueFrom (host p run at_ name) (rule.standing opts) r
    (unfinishedCount (c.now.view p at_.thread) r) 0 c = _
  cases hk : (rule.standing opts (c.now.view p at_.thread) r).decision? with
  | some d => rw [pursueFrom_of_decided hk, pursueCandidate_of_decided hk]
  | none =>
  have hpending := CheckRule.standing_of_pending hoff hk
  rw [pursueCandidate_of_pending hoff hk]
  have hunfinished : c.now.finished p r.candidate = false :=
    (CheckRule.pending_unheeded hoff).mp hk
  cases hr : round p run at_ name r .pendingCompletion 1 c with
  | error x c' => rw [pursueFrom_of_error hk (hpending ▸ hr), Act.bind_of_error hr]
  | ok u c' =>
  have hround : round p run at_ name r
      (rule.standing opts (c.now.view p at_.thread) r) (0 + 1) c = .ok ⟨⟩ c' := by
    rw [hpending]
    exact hr
  have hturn := hr
  rw [round_unheeded] at hturn
  obtain ⟨u, c₁, hemit, hforce⟩ := Act.bind_eq_ok hturn
  obtain ⟨log, hlog⟩ := emit_ok hemit
  have hfinished₁ : c₁.now.finished p = c.now.finished p := by
    rw [hlog]
    rfl
  have hripe : c₁.now.Ripens p c'.now := hripens c₁ c' hforce
  rw [Act.bind_of_ok hr, host_view_bind]
  rcases force_settles hsrc hforce with hdone | ⟨hhere, hsame⟩
  · -- the candidate is finished, so fewer entities are unfinished, whatever the containers do
    have hlt : unfinishedCount (c'.now.view p at_.thread) r <
        unfinishedCount (c.now.view p at_.thread) r :=
      unfinishedCount_lt (fun e he => hripe e (hfinished₁ ▸ he)) hunfinished hdone
    rw [pursueFrom_of_progress hk hround hlt]
    cases hk' : (rule.standing opts (c'.now.view p at_.thread) r).decision? with
    | some d => exact pursueFrom_of_decided hk'
    | none =>
      have hnot : c'.now.finished p r.candidate = false := (CheckRule.pending_unheeded hoff).mp hk'
      rw [hdone] at hnot
      cases hnot
  · -- this thread is completing the candidate, and nothing has been finished
    have hfinished : c'.now.finished p = c.now.finished p := hsame.trans hfinished₁
    have hcount : unfinishedCount (c'.now.view p at_.thread) r =
        unfinishedCount (c.now.view p at_.thread) r := by
      show List.countP (fun e => !c'.now.finished p e) _ = _
      rw [hfinished]
      rfl
    have hown : involvesCompletingHere (c'.now.view p at_.thread) r = true :=
      List.any_eq_true.mpr ⟨r.candidate, List.mem_cons_self, hhere⟩
    have hk' : (rule.standing opts (c'.now.view p at_.thread) r).decision? = none :=
      (CheckRule.pending_unheeded hoff).mpr ((congrFun hfinished _).trans hunfinished)
    rw [pursueFrom_of_pending hk, Act.bind_of_ok hround, host_view_bind,
      if_neg (Nat.not_lt_of_le (Nat.le_of_eq hcount.symm)), if_pos hown, hpending]
    simp only [hk']

/-- So it takes the same turns as for a site that nothing encloses. -/
theorem pursue_alone (hoff : rule.heedsContainers opts = false)
    (hsrc : p.IsSource r.candidate)
    (hripens : ∀ c c', force p run at_ r.candidate c = .ok ⟨⟩ c' → c.now.Ripens p c'.now) :
    pursue (host p run at_ name) (rule.standing opts) r.alone =
      pursue (host p run at_ name) (rule.standing opts) r := by
  have halone : pursue (host p run at_ name) (rule.standing opts) r.alone = _ :=
    pursue_eq_pursueCandidate hoff hsrc hripens
  rw [pursue_eq_pursueCandidate hoff hsrc hripens, halone]
  unfold pursueCandidate
  simp only [CheckRule.standing_alone hoff]
  rfl

end

/-! ### Checks -/

/-- The same site outside of everything. -/
def Context.outside (ctx : Context) : Context := { ctx with containing := none }

section

variable {candidate : Nat} (ctx : Context) (opts : Options)

theorem pursueCheck_outside (hoff : opts.suppressInDeprecatedContainers = false)
    (hsrc : p.IsSource candidate)
    (hripens : ∀ c c', force p run at_ candidate c = .ok ⟨⟩ c' → c.now.Ripens p c'.now) :
    pursueCheck p run at_ .deprecation candidate ctx.outside opts =
      pursueCheck p run at_ .deprecation candidate ctx opts := by
  have hpursue : pursue (host p run at_ (p.entity candidate).name)
        (CheckRule.deprecation.standing opts) (p.reference candidate ctx.outside) = _ :=
    pursue_alone (r := p.reference candidate ctx) hoff hsrc hripens
  unfold pursueCheck
  dsimp only
  rw [hpursue]

theorem decideDeprecation_outside (hoff : opts.suppressInDeprecatedContainers = false)
    (hsrc : p.IsSource candidate)
    (hripens : ∀ c c', force p run at_ candidate c = .ok ⟨⟩ c' → c.now.Ripens p c'.now) :
    decideDeprecation p run at_ candidate ctx.outside opts =
      decideDeprecation p run at_ candidate ctx opts := by
  unfold decideDeprecation
  rw [pursueCheck_outside ctx opts hoff hsrc hripens]
  rfl

end

end Session
end Deferral
