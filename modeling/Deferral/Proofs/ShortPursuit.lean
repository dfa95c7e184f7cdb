/-
# Pursuits of entities with binders are short

After a round, what was forced is begun. So a round after which nothing more is finished has an
owner on the thread; and if a round did finish something and the standing is still pending, then all
that the reference involves has been begun, and a second round changes nothing.

A pursuit breaks off only in a binder that it starts itself, in its first round. Where binders
perform plain steps, such a run can be nested no deeper than there are unfinished entities, so what
it breaks off with is a failure of its own.

Key definitions: `Session.Rounds`, `Session.EndsShort`.
Key theorems: `Session.owner_of_stall`, `Session.begun_of_progress`, `Session.pursue_endsShort`,
`Session.pursue_short`.
-/
import Mathlib
import Deferral.Proofs.Nesting
import Deferral.Proofs.Pending

namespace Deferral
namespace Session

variable {p : Program} {run : Runner} {at_ : Scope} {c c' : Course}

/-! ### Pursuits -/

section Pursuits

variable {name : String} {rule : View Nat → Reference Nat → Standing} {r : Reference Nat}
variable {remaining rounds : Nat}

theorem host_view_bind {α : Type} (f : View Nat → Act α) :
    ((host p run at_ name).view >>= f) c = f (c.now.view p at_.thread) c := rfl

theorem pursueFrom_of_decided {d : Decision}
    (h : (rule (c.now.view p at_.thread) r).decision? = some d) :
    pursueFrom (host p run at_ name) rule r remaining rounds c = .ok ⟨.decided d, rounds⟩ c := by
  rw [pursueFrom, host_view_bind]
  simp only [h]
  rfl

theorem pursueFrom_of_pending (h : (rule (c.now.view p at_.thread) r).decision? = none) :
    pursueFrom (host p run at_ name) rule r remaining rounds c =
      (round p run at_ name r (rule (c.now.view p at_.thread) r) (rounds + 1) >>= fun _ => do
        let after ← (host p run at_ name).view
        if unfinishedCount after r < remaining then
          pursueFrom (host p run at_ name) rule r (unfinishedCount after r) (rounds + 1)
        else if involvesCompletingHere after r then
          (host p run at_ name).announce (.undecided (rule (c.now.view p at_.thread) r))
          return ⟨.undecided, rounds + 1⟩
        else return ⟨.stalled (rule (c.now.view p at_.thread) r), rounds + 1⟩ : Act Pursuit) c := by
  rw [pursueFrom, host_view_bind, round, Act.bind_assoc]
  simp only [h]

theorem pursueFrom_of_error {x : Interruption}
    (h : (rule (c.now.view p at_.thread) r).decision? = none)
    (hr : round p run at_ name r (rule (c.now.view p at_.thread) r) (rounds + 1) c = .error x c') :
    pursueFrom (host p run at_ name) rule r remaining rounds c = .error x c' := by
  rw [pursueFrom_of_pending h, Act.bind_of_error hr]

theorem pursueFrom_of_progress (h : (rule (c.now.view p at_.thread) r).decision? = none)
    (hr : round p run at_ name r (rule (c.now.view p at_.thread) r) (rounds + 1) c = .ok ⟨⟩ c')
    (hlt : unfinishedCount (c'.now.view p at_.thread) r < remaining) :
    pursueFrom (host p run at_ name) rule r remaining rounds c =
      pursueFrom (host p run at_ name) rule r (unfinishedCount (c'.now.view p at_.thread) r)
        (rounds + 1) c' := by
  rw [pursueFrom_of_pending h, Act.bind_of_ok hr, host_view_bind, if_pos hlt]

theorem pursueFrom_of_owner (h : (rule (c.now.view p at_.thread) r).decision? = none)
    (hr : round p run at_ name r (rule (c.now.view p at_.thread) r) (rounds + 1) c = .ok ⟨⟩ c')
    (hle : remaining ≤ unfinishedCount (c'.now.view p at_.thread) r)
    (hown : involvesCompletingHere (c'.now.view p at_.thread) r = true) :
    ∃ c'' log, pursueFrom (host p run at_ name) rule r remaining rounds c =
      .ok ⟨.undecided, rounds + 1⟩ c'' ∧ c''.now = { c'.now with log } := by
  obtain ⟨c'', log, h'', hlog⟩ := emit_runs at_
    (noticeEntry name (.undecided (rule (c.now.view p at_.thread) r))) c'
  have hnot : ¬ unfinishedCount (c'.now.view p at_.thread) r < remaining := by omega
  refine ⟨c'', log, ?_, hlog⟩
  rw [pursueFrom_of_pending h, Act.bind_of_ok hr, host_view_bind, if_neg hnot, if_pos hown]
  exact Act.bind_of_ok h''

end Pursuits

/-! ### Stalls -/

section Stalls

variable {name : String} {rule : CheckRule} {o : Options} {r : Reference Nat} {w w' : World}
variable {me : Thread} {rounds : Nat}

/-- What is pending waits for something that a round forces. -/
theorem exists_forced_unfinished {v : View Nat} (h : (rule.standing o v r).decision? = none) :
    ∃ e ∈ forced r (rule.standing o v r), v.finished e = false := by
  rcases Standing.pending_iff.mp h with hk | hk
  · exact ⟨r.candidate, candidate_mem_forced, rule.unfinished_of_pendingCompletion hk⟩
  · obtain ⟨e, he, hf⟩ := rule.unfinished_of_pending h
    refine ⟨e, ?_, hf⟩
    rwa [hk, forced, if_pos rfl]

/-- If nothing more is finished after a round, then the standing is the same, and an entity that
was forced is being completed here. -/
theorem owner_of_stall (hsrc : ∀ e ∈ r.candidate :: r.containers, p.IsSource e)
    (halone : w.Alone me r) (hl : w.Later w')
    (hk : (rule.standing o (w.view p me) r).decision? = none)
    (hb : ∀ e ∈ forced r (rule.standing o (w.view p me) r), w'.Begun e)
    (hle : unfinishedCount (w.view p me) r ≤ unfinishedCount (w'.view p me) r) :
    rule.standing o (w'.view p me) r = rule.standing o (w.view p me) r ∧
      involvesCompletingHere (w'.view p me) r = true := by
  have hfin : ∀ e ∈ r.candidate :: r.containers,
      (w.view p me).finished e = (w'.view p me).finished e :=
    finished_of_unfinishedCount_eq (fun e he => hl.finished (hsrc e he)) hle
  refine ⟨?_, ?_⟩
  · exact (rule.standing_congr fun e he => ⟨hfin e he, hl.shown (hsrc e he) (hfin e he)⟩).symm
  · obtain ⟨e, he, hf⟩ := exists_forced_unfinished hk
    have hi := mem_involved_of_mem_forced he
    rw [hfin e hi] at hf
    exact List.any_eq_true.mpr
      ⟨e, hi, (halone.later hl).completingHere hi (hsrc e hi) (hb e he) hf⟩

theorem unfinishedCount_le_of_bindings (hsrc : ∀ e ∈ r.candidate :: r.containers, p.IsSource e)
    (h : w'.bindings = w.bindings) :
    unfinishedCount (w.view p me) r ≤ unfinishedCount (w'.view p me) r := by
  refine unfinishedCount_le fun e he hf => ?_
  rw [World.view_finished (hsrc e he)] at hf ⊢
  rwa [h] at hf

theorem pursueFrom_of_stall (hrun : LawfulRunner p run)
    (hsrc : ∀ e ∈ r.candidate :: r.containers, p.IsSource e) (hs : c.now.Sound p)
    (ht : c.now.Hosts at_.thread) (halone : c.now.Alone at_.thread r)
    (hk : (rule.standing o (c.now.view p at_.thread) r).decision? = none)
    (hr : round p run at_ name r (rule.standing o (c.now.view p at_.thread) r) (rounds + 1) c =
      .ok ⟨⟩ c')
    (hle : unfinishedCount (c.now.view p at_.thread) r ≤
      unfinishedCount (c'.now.view p at_.thread) r) :
    ∃ c'' log, pursueFrom (host p run at_ name) (rule.standing o) r
        (unfinishedCount (c.now.view p at_.thread) r) rounds c = .ok ⟨.undecided, rounds + 1⟩ c'' ∧
      c''.now = { c'.now with log } ∧
      (rule.standing o (c''.now.view p at_.thread) r).isPending = true ∧
      involvesCompletingHere (c''.now.view p at_.thread) r = true := by
  have hl := ((lawful_round hrun).ok hs ht hr).later
  obtain ⟨hsame, hown⟩ := owner_of_stall hsrc halone hl hk (round_begun hrun hsrc hs ht hr) hle
  obtain ⟨c'', log, hp, hnow⟩ := pursueFrom_of_owner hk hr hle hown
  -- the log is no part of a view
  have hview : c''.now.view p at_.thread = c'.now.view p at_.thread := by
    rw [hnow]
    rfl
  refine ⟨c'', log, hp, hnow, ?_, ?_⟩
  · rw [hview, hsame, Standing.isPending, hk]
    rfl
  · rw [hview]
    exact hown

/-- After a round that made progress and left something pending, all that is involved is begun: had
only the candidate been forced, it would be finished, and then the standing decided. -/
theorem begun_of_progress (hrun : LawfulRunner p run)
    (hsrc : ∀ e ∈ r.candidate :: r.containers, p.IsSource e) (hs : c.now.Sound p)
    (ht : c.now.Hosts at_.thread) (halone : c.now.Alone at_.thread r)
    (hk : (rule.standing o (c.now.view p at_.thread) r).decision? = none)
    (hr : round p run at_ name r (rule.standing o (c.now.view p at_.thread) r) rounds c =
      .ok ⟨⟩ c')
    (hlt : unfinishedCount (c'.now.view p at_.thread) r <
      unfinishedCount (c.now.view p at_.thread) r)
    (hk' : (rule.standing o (c'.now.view p at_.thread) r).decision? = none) :
    ∀ e ∈ r.candidate :: r.containers, c'.now.Begun e := by
  have hl := ((lawful_round hrun).ok hs ht hr).later
  have hb := round_begun hrun hsrc hs ht hr
  rcases Standing.pending_iff.mp hk with hk | hk
  · exfalso
    have hcand : p.IsSource r.candidate := hsrc _ List.mem_cons_self
    cases hf : (c'.now.view p at_.thread).finished r.candidate with
    | true =>
      obtain ⟨d, hd⟩ := rule.decided_of_finished hk
        (fun e he => hl.finished (hsrc e (List.mem_cons_of_mem _ he))) hf
      rw [hk'] at hd
      cases hd
    | false =>
      -- the candidate is in progress here after the round, so it was before: nothing has changed
      have hown := (halone.later hl).completingHere List.mem_cons_self hcand
        (hb _ candidate_mem_forced) hf
      rw [World.view_completingHere hcand, Binding.isInProgressOn, beq_iff_eq,
        (hl.bindings r.candidate).inProgress_iff] at hown
      obtain ⟨c₁, hr₁, hsame⟩ := round_of_begun run name rounds
        (k := rule.standing o (c.now.view p at_.thread) r) hsrc halone fun e he => by
          rw [hk, forced, if_neg (by simp), List.mem_singleton] at he
          rw [he, World.Begun, hown]
          simp
      obtain rfl : c₁ = c' := by
        rw [hr] at hr₁
        cases hr₁
        rfl
      have hle : unfinishedCount (c.now.view p at_.thread) r ≤
          unfinishedCount (c₁.now.view p at_.thread) r := unfinishedCount_le_of_bindings hsrc hsame
      omega
  · intro e he
    refine hb e ?_
    rwa [hk, forced, if_pos rfl]

end Stalls

/-! ### The bound -/

section Bound

variable {name : String} {rule : CheckRule} {o : Options} {r : Reference Nat}

/-- So many rounds of forcing lead from `c` to the course, each begun while the reference was
pending. -/
inductive Rounds (p : Program) (run : Runner) (at_ : Scope) (name : String)
    (rule : View Nat → Reference Nat → Standing) (r : Reference Nat) (c : Course) :
    Nat → Course → Prop
  | none : Rounds p run at_ name rule r c 0 c
  | next {n : Nat} {c₁ c₂ : Course} (before : Rounds p run at_ name rule r c n c₁)
      (pending : (rule (c₁.now.view p at_.thread) r).decision? = none)
      (turn : round p run at_ name r (rule (c₁.now.view p at_.thread) r) (n + 1) c₁ = .ok ⟨⟩ c₂) :
      Rounds p run at_ name rule r c (n + 1) c₂

/-- How a pursuit from `c` may end: decided after one round at most; undecided after two rounds at
most, where the standing is pending and this thread is completing an entity involved; or broken off
in its first round, with a binder that it started. -/
def EndsShort (p : Program) (run : Runner) (at_ : Scope) (name : String) (rule : CheckRule)
    (o : Options) (r : Reference Nat) (c : Course) :
    EStateM.Result Interruption Course Pursuit → Prop
  | .ok ⟨.decided d, rounds⟩ c' =>
    rounds ≤ 1 ∧ Rounds p run at_ name (rule.standing o) r c rounds c' ∧
      (rule.standing o (c'.now.view p at_.thread) r).decision? = some d
  | .ok ⟨.undecided, rounds⟩ c' =>
    rounds ≤ 2 ∧
      (∃ c₁ log, Rounds p run at_ name (rule.standing o) r c rounds c₁ ∧
        c'.now = { c₁.now with log }) ∧
      (rule.standing o (c'.now.view p at_.thread) r).isPending = true ∧
      involvesCompletingHere (c'.now.view p at_.thread) r = true
  | .ok ⟨.stalled _, _⟩ _ => False
  | .error x c' =>
    round p run at_ name r (rule.standing o (c.now.view p at_.thread) r) 1 c = .error x c' ∧
      BreaksOff p run at_ r c x c'

theorem pursue_endsShort (name : String) (hrun : LawfulRunner p run)
    (hsrc : ∀ e ∈ r.candidate :: r.containers, p.IsSource e) (hs : c.now.Sound p)
    (ht : c.now.Hosts at_.thread) (halone : c.now.Alone at_.thread r) :
    EndsShort p run at_ name rule o r c
      (pursue (host p run at_ name) (rule.standing o) r c) := by
  have hpursue : pursue (host p run at_ name) (rule.standing o) r c =
      pursueFrom (host p run at_ name) (rule.standing o) r
        (unfinishedCount (c.now.view p at_.thread) r) 0 c := rfl
  rw [hpursue]
  cases hk : (rule.standing o (c.now.view p at_.thread) r).decision? with
  | some d =>
    rw [pursueFrom_of_decided hk]
    exact ⟨Nat.zero_le 1, .none, hk⟩
  | none =>
  cases hr : round p run at_ name r (rule.standing o (c.now.view p at_.thread) r) 1 c with
  | error x c₁ =>
    rw [pursueFrom_of_error hk hr]
    exact ⟨hr, round_error hrun hsrc hs ht halone hr⟩
  | ok u c₁ =>
  have hfirst : Rounds p run at_ name (rule.standing o) r c 1 c₁ := .next .none hk hr
  rcases Nat.lt_or_ge (unfinishedCount (c₁.now.view p at_.thread) r)
    (unfinishedCount (c.now.view p at_.thread) r) with hlt | hle
  · rw [pursueFrom_of_progress hk hr hlt]
    have hpass := (lawful_round hrun).ok hs ht hr
    cases hk₁ : (rule.standing o (c₁.now.view p at_.thread) r).decision? with
    | some d =>
      rw [pursueFrom_of_decided hk₁]
      exact ⟨Nat.le_refl 1, hfirst, hk₁⟩
    | none =>
      -- all that is involved is begun now, so the second round changes nothing
      have hb := begun_of_progress hrun hsrc hs ht halone hk hr hlt hk₁
      have halone₁ := halone.later hpass.later
      obtain ⟨c₂, hr₂, hsame⟩ := round_of_begun run name 2
        (k := rule.standing o (c₁.now.view p at_.thread) r) hsrc halone₁ fun e he =>
          hb e (mem_involved_of_mem_forced he)
      obtain ⟨c₃, log, hp, hlog, hpend, hown⟩ := pursueFrom_of_stall hrun hsrc (hpass.sound hs)
        (hpass.hosts ht) halone₁ hk₁ hr₂ (unfinishedCount_le_of_bindings hsrc hsame)
      rw [hp]
      exact ⟨Nat.le_refl 2, ⟨c₂, log, .next hfirst hk₁ hr₂, hlog⟩, hpend, hown⟩
  · obtain ⟨c₂, log, hp, hlog, hpend, hown⟩ :=
      pursueFrom_of_stall hrun hsrc hs ht halone hk hr hle
    rw [hp]
    exact ⟨Nat.le_succ 1, ⟨c₁, log, hfirst, hlog⟩, hpend, hown⟩

/-- A pursuit that stays undecided was called while an entity was being completed here. -/
theorem owner_of_undecided (hrun : LawfulRunner p run)
    (hsrc : ∀ e ∈ r.candidate :: r.containers, p.IsSource e) (hs : c.now.Sound p)
    (ht : c.now.Hosts at_.thread) {s : Pursuit}
    (hp : pursue (host p run at_ name) (rule.standing o) r c = .ok s c')
    (hown : involvesCompletingHere (c'.now.view p at_.thread) r = true) :
    ∃ e ∈ r.candidate :: r.containers, (c.now.bindings e).completion = .inProgress at_.thread := by
  have hl := ((lawful_hostPursue hrun name (rule.standing o) r).ok hs ht hp).later
  obtain ⟨e, he, hce⟩ := List.any_eq_true.mp hown
  rw [World.view_completingHere (hsrc e he), Binding.isInProgressOn, beq_iff_eq,
    (hl.bindings e).inProgress_iff] at hce
  exact ⟨e, he, hce⟩

/-- In a session on one thread, nobody else is completing anything. -/
theorem World.Sound.alone {w : World} (hs : w.Sound p) (hone : w.nextThread = mainThread + 1) :
    w.Alone mainThread r := by
  intro e _ t ht
  exact (World.hosts_iff_of_single hone).mp (hs.owner e t ht)

/-- Where there is room for the binders that may be nested, a pursuit ends. -/
theorem nests_pursue (hp : p.Plain) (within : Nat) (at_ : Scope) (name : String)
    (rule : View Nat → Reference Nat → Standing) (r : Reference Nat) :
    Nests p at_ within (pursue (host p (performAll p within) at_ name) rule r)
      (pursue (host p (performApart p within) at_ name) rule r) :=
  (nestingWithin hp (Nat.le_refl within) at_).pursue name rule r

/-- **Pursuits are short.** At each moment of a session on one thread, whatever it is nested in, the
pursuit of a reference between entities with binders never stalls without an owner, takes two rounds
at most, decides after one round at most, and stays undecided only where the standing is pending
while an entity involved is being completed here. It breaks off only in a binder that it starts.
While no binder runs, it decides unless it breaks off so. Where steps are plain, and may be nested
as deep as there are unfinished entities, it returns or fails as that binder does: nothing in it is
nested too deep, and nothing waits. -/
theorem pursue_short {depth within : Nat} {steps : List Step}
    (hc : c.now ∈ p.moments depth steps) (hone : c.now.nextThread = mainThread + 1)
    (hmain : at_.thread = mainThread)
    (hsrc : ∀ e ∈ r.candidate :: r.containers, p.IsSource e) :
    EndsShort p (performAll p within) at_ name rule o r c
        (pursue (host p (performAll p within) at_ name) (rule.standing o) r c) ∧
      ((∀ e, (c.now.bindings e).completion ≠ .inProgress mainThread) →
        (∃ d rounds c', pursue (host p (performAll p within) at_ name) (rule.standing o) r c =
          .ok ⟨.decided d, rounds⟩ c') ∨
        ∃ x c', pursue (host p (performAll p within) at_ name) (rule.standing o) r c =
          .error x c' ∧ BreaksOff p (performAll p within) at_ r c x c') ∧
      (p.Plain → PlainSteps steps → p.unfinished c.now ≤ within →
        Ends (pursue (host p (performAll p within) at_ name) (rule.standing o) r c)) := by
  have hrun := lawful_performAll p within
  have hs := sound_of_mem_moments hc
  have ht : c.now.Hosts at_.thread := (World.hosts_iff_of_single hone).mpr hmain
  have halone : c.now.Alone at_.thread r := hmain ▸ hs.alone hone
  have hends : EndsShort p (performAll p within) at_ name rule o r c _ :=
    pursue_endsShort name hrun hsrc hs ht halone
  refine ⟨hends, fun hidle => ?_, fun hp hsteps hle => ?_⟩
  · cases hpursue : pursue (host p (performAll p within) at_ name) (rule.standing o) r c with
    | error x c' =>
      rw [hpursue] at hends
      exact .inr ⟨x, c', rfl, hends.2⟩
    | ok s c' =>
      rw [hpursue] at hends
      obtain ⟨ending, rounds⟩ := s
      cases ending with
      | decided d => exact .inl ⟨d, rounds, c', rfl⟩
      | undecided =>
        obtain ⟨e, -, he⟩ := owner_of_undecided hrun hsrc hs ht hpursue hends.2.2.2
        exact absurd (hmain ▸ he) (hidle e)
      | stalled k => exact absurd hends id
  · have hroom : Room p at_ within c.now := room_of_mem_moments hp hsteps hc hle hmain
    exact (nests_pursue hp within at_ name (rule.standing o) r).ends c hroom

end Bound

/-- An old entity that is also experimental, and two more around a site. -/
def enclosed : Program where
  entities :=
    [⟨0, "Outer", .type, none, .plain, .source false false .plain⟩,
      ⟨1, "Inner", .method, some 0, .plain, .source false false .plain⟩,
      ⟨2, "Old", .method, none, ⟨some .plain, true⟩, .source false false .plain⟩]

/-- A site inside the inner one. -/
def innerSite : Context := ⟨some 1, .empty, ⟨0, ⟨0, 1⟩⟩⟩

/-- Pursues a use of the old entity at that site. -/
def enclosedPursuit : Act Pursuit :=
  pursue (host enclosed (performAll enclosed 3) ⟨mainThread, []⟩ "Old")
    (CheckRule.experimental.standing .standard) (enclosed.reference 2 innerSite)

/-- While the outer entity is being completed, a use of the old one takes both rounds, and stays
undecided. -/
theorem pursue_short_while_binding :
    enclosed.Plain ∧ PlainSteps [.guarded (.force 0)] ∧ (∀ e ∈ [2, 1, 0], enclosed.IsSource e) ∧
      ∃ c : Course, c.now ∈ enclosed.moments 2 [.guarded (.force 0)] ∧
        c.now.nextThread = mainThread + 1 ∧ enclosed.unfinished c.now = 3 ∧
        Ends (enclosedPursuit c) ∧
        ∃ c', enclosedPursuit c = .ok ⟨.undecided, 2⟩ c' ∧
          (CheckRule.experimental.standing .standard (c'.now.view enclosed mainThread)
            (enclosed.reference 2 innerSite)).isPending = true ∧
          involvesCompletingHere (c'.now.view enclosed mainThread)
            (enclosed.reference 2 innerSite) = true := by
  have h : ((enclosed.moments 2 [.guarded (.force 0)])[2]?.map fun w =>
      (w.nextThread, enclosed.unfinished w, enclosedPursuit.answer? ⟨w, []⟩)) =
        some (mainThread + 1, 3, some ⟨.undecided, 2⟩) := by
    cbv
  obtain ⟨w, hw, hv⟩ := Option.map_eq_some_iff.mp h
  obtain ⟨hone, hrest⟩ := Prod.mk.inj hv
  obtain ⟨hn, hanswer⟩ := Prod.mk.inj hrest
  have hmem := List.mem_of_getElem? hw
  have hplain : enclosed.Plain := by decide
  have hsteps : PlainSteps [.guarded (.force 0)] := by decide
  have hsrc : ∀ e ∈ [2, 1, 0], enclosed.IsSource e := by decide
  have hpursuit := Act.eq_ok_of_answer? hanswer
  obtain ⟨hshort, -, hends⟩ : EndsShort enclosed (performAll enclosed 3) ⟨mainThread, []⟩
      "Old" .experimental .standard (enclosed.reference 2 innerSite) ⟨w, []⟩
      (enclosedPursuit ⟨w, []⟩) ∧ _ :=
    pursue_short hmem hone rfl hsrc
  have hreturns : Ends (enclosedPursuit ⟨w, []⟩) := hends hplain hsteps (Nat.le_of_eq hn)
  rw [hpursuit] at hshort
  exact ⟨hplain, hsteps, hsrc, ⟨w, []⟩, hmem, hone, hn, hreturns, _, hpursuit, hshort.2.2.1,
    hshort.2.2.2⟩

end Session
end Deferral
