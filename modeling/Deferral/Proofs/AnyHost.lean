/-
# Pursuits end, whatever forcing does

The owner of the entities is any state here that can be looked at, and forcing one entity may change
all of them: it may complete several or none, take a second attempt, fail, or take back what was
finished. Each round but the last leaves fewer of the involved entities unfinished than there were
before it, so a pursuit takes at most one round more than there are such entities when it begins,
and a round that leaves no fewer ends it undecided or stalled.

Key definitions: `Owner`, `Owner.Advances`, `Owner.Stalls`, `Owner.Ended`.
Key theorems: `Owner.Advances.add_le`, `Owner.pursueFrom_ended`, `Owner.pursue_ended`.
-/
import Deferral.Pursuit

namespace Deferral

variable {X σ ε : Type}

/-- The owner of entities, as a state. To look at it changes nothing; to force an entity or to tell
an observer may change anything, and fail. -/
structure Owner (X σ ε : Type) where
  view : σ → View ε
  force : ε → EStateM X σ Unit
  announce : Notice → EStateM X σ Unit

namespace Owner

/-- The owner, as the loop sees it. -/
def host (o : Owner X σ ε) : Host (EStateM X σ) ε where
  view s := .ok (o.view s) s
  force := o.force
  announce := o.announce

/-- The entities involved that are unfinished, as `unfinishedCount` counts them. -/
def unfinished (o : Owner X σ ε) (r : Reference ε) (s : σ) : Nat := unfinishedCount (o.view s) r

/-- A round of forcing, with its notice. -/
def round (o : Owner X σ ε) (r : Reference ε) (number : Nat) (c : Standing) : EStateM X σ Unit := do
  o.announce (.forcing number c)
  o.host.forceRound r c

/-- So many rounds lead from the one state to the other, and each leaves fewer entities unfinished
than there were before it. -/
inductive Advances (o : Owner X σ ε) (rule : View ε → Reference ε → Standing) (r : Reference ε)
    (s : σ) : Nat → σ → Prop where
  | none : Advances o rule r s 0 s
  | round {k : Nat} {s₁ s₂ : σ} (before : Advances o rule r s k s₁)
      (pending : (rule (o.view s₁) r).decision? = .none)
      (forced : o.round r (k + 1) (rule (o.view s₁) r) s₁ = .ok ⟨⟩ s₂)
      (fewer : o.unfinished r s₂ < o.unfinished r s₁) : Advances o rule r s (k + 1) s₂

/-- Of so many rounds the last, before which the reference stands so, leaves no fewer entities
unfinished than there were. -/
inductive Stalls (o : Owner X σ ε) (rule : View ε → Reference ε → Standing) (r : Reference ε)
    (s : σ) : Nat → Standing → σ → Prop where
  | round {k : Nat} {s₁ s₂ : σ} (before : Advances o rule r s k s₁)
      (pending : (rule (o.view s₁) r).decision? = .none)
      (forced : o.round r (k + 1) (rule (o.view s₁) r) s₁ = .ok ⟨⟩ s₂)
      (noFewer : o.unfinished r s₁ ≤ o.unfinished r s₂) :
      Stalls o rule r s (k + 1) (rule (o.view s₁) r) s₂

/-- How a pursuit from `s` ends, and after what rounds. -/
def Ended (o : Owner X σ ε) (rule : View ε → Reference ε → Standing) (r : Reference ε) (s : σ) :
    EStateM.Result X σ Pursuit → Prop
  | .ok ⟨.decided t, rounds⟩ s' =>
    rounds ≤ o.unfinished r s ∧ o.Advances rule r s rounds s' ∧
      (rule (o.view s') r).decision? = some t
  | .ok ⟨.undecided, rounds⟩ s' =>
    rounds ≤ o.unfinished r s + 1 ∧ ∃ c s₁, o.Stalls rule r s rounds c s₁ ∧
      involvesCompletingHere (o.view s₁) r = true ∧ o.announce (.undecided c) s₁ = .ok ⟨⟩ s'
  | .ok ⟨.stalled c, rounds⟩ s' =>
    rounds ≤ o.unfinished r s + 1 ∧ o.Stalls rule r s rounds c s' ∧
      involvesCompletingHere (o.view s') r = false
  | .error x s' =>
    (∃ k s₁, k ≤ o.unfinished r s ∧ o.Advances rule r s k s₁ ∧
      (rule (o.view s₁) r).decision? = none ∧
      o.round r (k + 1) (rule (o.view s₁) r) s₁ = .error x s') ∨
    ∃ k c s₁, k ≤ o.unfinished r s + 1 ∧ o.Stalls rule r s k c s₁ ∧
      involvesCompletingHere (o.view s₁) r = true ∧ o.announce (.undecided c) s₁ = .error x s'

variable {o : Owner X σ ε} {rule : View ε → Reference ε → Standing} {r : Reference ε}
variable {s s₁ s₂ : σ} {x : X} {c : Standing} {k : Nat}

/-! ### Rounds -/

/-- The rounds have finished at least as many entities as they are. -/
theorem Advances.add_le (h : o.Advances rule r s k s₁) :
    k + o.unfinished r s₁ ≤ o.unfinished r s := by
  induction h with
  | none => exact Nat.le_of_eq (Nat.zero_add _)
  | round _ _ _ fewer ih => omega

theorem Advances.le (h : o.Advances rule r s k s₁) : k ≤ o.unfinished r s :=
  Nat.le_trans (Nat.le_add_right _ _) h.add_le

theorem Stalls.le (h : o.Stalls rule r s k c s₁) : k ≤ o.unfinished r s + 1 := by
  cases h with
  | round before => exact Nat.succ_le_succ before.le

/-- There are no more unfinished entities than entities. -/
theorem unfinished_le (o : Owner X σ ε) (r : Reference ε) (s : σ) :
    o.unfinished r s ≤ r.containers.length + 1 := List.countP_le_length

/-! ### One turn of the loop -/

section Turn

variable {α β : Type} {a : α} {act : EStateM X σ α} {f : α → EStateM X σ β}

theorem bind_of_ok (h : act s = .ok a s₁) : (act >>= f) s = f a s₁ := by
  show EStateM.bind act f s = _
  simp only [EStateM.bind, h]

theorem bind_of_error (h : act s = .error x s₁) : (act >>= f) s = .error x s₁ := by
  show EStateM.bind act f s = _
  simp only [EStateM.bind, h]

variable {remaining rounds : Nat}

theorem pursueFrom_of_decided {t : Decision} (h : (rule (o.view s) r).decision? = some t) :
    pursueFrom o.host rule r remaining rounds s = .ok ⟨.decided t, rounds⟩ s := by
  rw [pursueFrom, bind_of_ok (show o.host.view s = .ok (o.view s) s from rfl)]
  simp only [h]
  rfl

theorem pursueFrom_of_pending (h : (rule (o.view s) r).decision? = none) :
    pursueFrom o.host rule r remaining rounds s =
      (o.round r (rounds + 1) (rule (o.view s) r) >>= fun _ => do
        let after ← o.host.view
        if unfinishedCount after r < remaining then
          pursueFrom o.host rule r (unfinishedCount after r) (rounds + 1)
        else if involvesCompletingHere after r then
          o.announce (.undecided (rule (o.view s) r))
          return ⟨.undecided, rounds + 1⟩
        else return ⟨.stalled (rule (o.view s) r), rounds + 1⟩ : EStateM X σ Pursuit) s := by
  rw [pursueFrom, bind_of_ok (show o.host.view s = .ok (o.view s) s from rfl), round, bind_assoc]
  simp only [h]
  rfl

variable (h : (rule (o.view s) r).decision? = none)

include h

theorem pursueFrom_of_failure
    (hr : o.round r (rounds + 1) (rule (o.view s) r) s = .error x s₁) :
    pursueFrom o.host rule r remaining rounds s = .error x s₁ := by
  rw [pursueFrom_of_pending h, bind_of_error hr]

variable (hr : o.round r (rounds + 1) (rule (o.view s) r) s = .ok ⟨⟩ s₁)

include hr

theorem pursueFrom_of_progress (hlt : o.unfinished r s₁ < remaining) :
    pursueFrom o.host rule r remaining rounds s =
      pursueFrom o.host rule r (o.unfinished r s₁) (rounds + 1) s₁ := by
  rw [pursueFrom_of_pending h, bind_of_ok hr,
    bind_of_ok (show o.host.view s₁ = .ok (o.view s₁) s₁ from rfl)]
  exact congrFun (if_pos hlt) s₁

theorem pursueFrom_of_stall (hle : remaining ≤ o.unfinished r s₁) :
    pursueFrom o.host rule r remaining rounds s =
      (if involvesCompletingHere (o.view s₁) r then do
        o.announce (.undecided (rule (o.view s) r))
        return ⟨.undecided, rounds + 1⟩
      else return ⟨.stalled (rule (o.view s) r), rounds + 1⟩ : EStateM X σ Pursuit) s₁ := by
  rw [pursueFrom_of_pending h, bind_of_ok hr,
    bind_of_ok (show o.host.view s₁ = .ok (o.view s₁) s₁ from rfl)]
  exact congrFun (if_neg (Nat.not_lt.mpr hle)) s₁

end Turn

/-! ### All turns -/

/-- After rounds that advance, the pursuit goes on to its end. -/
theorem pursueFrom_ended (h : o.Advances rule r s k s₁) :
    o.Ended rule r s (pursueFrom o.host rule r (o.unfinished r s₁) k s₁) := by
  -- the induction is on what the last round left unfinished
  induction hn : o.unfinished r s₁ using Nat.strongRecOn generalizing k s₁ with
  | ind n ih =>
  subst hn
  cases hd : (rule (o.view s₁) r).decision? with
  | some t =>
    rw [pursueFrom_of_decided hd]
    exact ⟨h.le, h, hd⟩
  | none =>
  cases hr : o.round r (k + 1) (rule (o.view s₁) r) s₁ with
  | error x s₂ =>
    rw [pursueFrom_of_failure hd hr]
    exact .inl ⟨k, s₁, h.le, h, hd, hr⟩
  | ok u s₂ =>
  rcases Nat.lt_or_ge (o.unfinished r s₂) (o.unfinished r s₁) with hlt | hle
  · rw [pursueFrom_of_progress hd hr hlt]
    exact ih _ hlt (h.round hd hr hlt) rfl
  · have hstalls : o.Stalls rule r s (k + 1) (rule (o.view s₁) r) s₂ := .round h hd hr hle
    rw [pursueFrom_of_stall hd hr hle]
    cases hown : involvesCompletingHere (o.view s₂) r with
    | false =>
      rw [if_neg Bool.false_ne_true]
      exact ⟨hstalls.le, hstalls, hown⟩
    | true =>
      rw [if_pos rfl]
      cases ha : o.announce (.undecided (rule (o.view s₁) r)) s₂ with
      | error x s₃ =>
        rw [bind_of_error ha]
        exact .inr ⟨k + 1, _, s₂, hstalls.le, hstalls, hown, ha⟩
      | ok u s₃ =>
        rw [bind_of_ok ha]
        exact ⟨hstalls.le, _, s₂, hstalls, hown, ha⟩

/-- **Pursuits end for every owner.** There are at most as many unfinished entities among those
involved as the chain of containers is long, and one. Where a pursuit decides, it has taken at most
so many rounds, and decides as the rule does in the state it ends in. Where it stays undecided or
stalls, it has taken at most one round more, the last of which left no fewer entities unfinished
than there were; it stays undecided if after this round an entity involved is being completed here,
and stalls otherwise. It fails only as forcing or the observer does. -/
theorem pursue_ended (o : Owner X σ ε) (rule : View ε → Reference ε → Standing) (r : Reference ε)
    (s : σ) :
    o.unfinished r s ≤ r.containers.length + 1 ∧ o.Ended rule r s (pursue o.host rule r s) :=
  ⟨o.unfinished_le r s, pursueFrom_ended .none⟩

end Owner
end Deferral
