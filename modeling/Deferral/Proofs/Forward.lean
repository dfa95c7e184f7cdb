/-
# Standings only move forward

In a later view more entities are finished. A reference may be ambiguous at first and then await the
completion of its candidate alone, and once it does, no container makes it ambiguous again: the
containers that matter are finished and stay so. When the candidate is finished too, the reference
is decided, and it stays decided in the same way.

Key definitions: `Standing.rank`.
Key theorems: `Session.CheckRule.standing_awaits`, `Session.CheckRule.rank_le`,
`Session.CheckRule.ranks_ascend`, `Session.CheckRule.standing_forward`.
-/
import Deferral.Proofs.Pending
import Deferral.Proofs.Stable
import Mathlib.Data.List.Chain

namespace Deferral

variable {ε : Type}

theorem View.Extends.trans {v v' v'' : View ε} (h : v.Extends v') (h' : v'.Extends v'') :
    v.Extends v'' where
  finished e he := h'.finished e (h.finished e he)
  attributes e he := (h'.attributes e (h.finished e he)).trans (h.attributes e he)

instance : IsTrans (View ε) View.Extends := ⟨fun _ _ _ => View.Extends.trans⟩

/-- How far a standing has come. -/
def Standing.rank : Standing → Nat
  | .pendingAmbiguous => 0
  | .pendingCompletion => 1
  | .inapplicable => 2
  | .reportable => 2

theorem Standing.rank_of_decided {k : Standing} {d : Decision} (h : k.decision? = some d) :
    k.rank = 2 := by
  cases k with
  | inapplicable => rfl
  | reportable => rfl
  | pendingCompletion => cases h
  | pendingAmbiguous => cases h

namespace Session
namespace CheckRule

variable {o : Options} {v v' : View ε} {r : Reference ε}

/-- While the candidate is unfinished, its completion stays all that is awaited. -/
theorem standing_awaits (rule : CheckRule) (h : v.Extends v')
    (hk : rule.standing o v r = .pendingCompletion) (hf : v'.finished r.candidate = false) :
    rule.standing o v' r = .pendingCompletion := by
  rw [rule.standing_of_unfinished (rule.unfinished_of_pendingCompletion hk),
    pendingOn_eq_pendingCompletion] at hk
  rw [rule.standing_of_unfinished hf, pendingOn_eq_pendingCompletion]
  rcases Bool.or_eq_true_iff.mp hk with hoff | hall
  · rw [hoff, Bool.true_or]
  · have hall' : r.containers.all v'.finished = true :=
      List.all_eq_true.mpr fun c hc => h.finished c (List.all_eq_true.mp hall c hc)
    rw [hall', Bool.or_true]

/-- Nothing is pending where all that the reference involves is finished. -/
theorem decided_of_all_finished (rule : CheckRule)
    (h : ∀ e ∈ r.candidate :: r.containers, v.finished e = true) :
    ∃ d, (rule.standing o v r).decision? = some d := by
  cases hd : (rule.standing o v r).decision? with
  | some d => exact ⟨d, rfl⟩
  | none =>
    obtain ⟨e, he, hf⟩ := rule.unfinished_of_pending hd
    rw [h e he] at hf
    cases hf

/-- From one view to a later one, no standing falls back. -/
theorem rank_le (rule : CheckRule) (h : v.Extends v') :
    (rule.standing o v r).rank ≤ (rule.standing o v' r).rank := by
  cases hd : (rule.standing o v r).decision? with
  | some d => exact (congrArg Standing.rank (rule.standing_stable h hd)).ge
  | none =>
    rcases Standing.pending_iff.mp hd with hk | hk
    · cases hf : v'.finished r.candidate with
      | false => rw [hk, rule.standing_awaits h hk hf]
      | true =>
        obtain ⟨d, hd'⟩ := rule.decided_of_finished hk (fun c _ => h.finished c) hf
        rw [hk, Standing.rank_of_decided hd']
        decide
    · rw [hk]
      exact Nat.zero_le _

/-- And so through all the views that a reference is seen in, one after the other. -/
theorem ranks_ascend (rule : CheckRule) {views : List (View ε)}
    (h : views.IsChain View.Extends) :
    (views.map fun v => (rule.standing o v r).rank).Pairwise (· ≤ ·) :=
  List.pairwise_map.mpr (h.pairwise.imp fun hv => rule.rank_le hv)

/-- **Standings only move forward.** A standing that is decided stays the same in each later view.
Where the completion of the candidate is awaited, it is all that is awaited until the candidate is
finished, and then the standing is decided. And where all that is involved is finished, the standing
is decided. -/
theorem standing_forward (rule : CheckRule) (o : Options) (r : Reference ε) (h : v.Extends v') :
    (∀ d, (rule.standing o v r).decision? = some d →
      rule.standing o v' r = rule.standing o v r) ∧
    (rule.standing o v r = .pendingCompletion →
      (v'.finished r.candidate = false → rule.standing o v' r = .pendingCompletion) ∧
      (v'.finished r.candidate = true → ∃ d, (rule.standing o v' r).decision? = some d) ∧
      rule.standing o v' r ≠ .pendingAmbiguous) ∧
    ((∀ e ∈ r.candidate :: r.containers, v'.finished e = true) →
      ∃ d, (rule.standing o v' r).decision? = some d) := by
  refine ⟨fun d hd => rule.standing_stable h hd, fun hk => ⟨?_, ?_, ?_⟩,
    rule.decided_of_all_finished⟩
  · exact rule.standing_awaits h hk
  · exact rule.decided_of_finished hk fun c _ => h.finished c
  · intro hambiguous
    have hle := rule.rank_le (o := o) (r := r) h
    rw [hk, hambiguous] at hle
    exact absurd hle (by decide)

/-- The first entities are finished, and the third of them is deprecated. -/
def stage (n : Nat) : View Nat where
  finished e := decide (e < n)
  completingHere _ := false
  deprecation e := if e < n ∧ e = 2 then some .plain else none
  experimental _ := false

theorem stage_extends {n n' : Nat} (h : n ≤ n') : (stage n).Extends (stage n') where
  finished e he := decide_eq_true (Nat.lt_of_lt_of_le (of_decide_eq_true he) h)
  attributes e he := by
    have hlt : e < n := of_decide_eq_true he
    have hlt' : e < n' := Nat.lt_of_lt_of_le hlt h
    simp [View.attributes, stage, hlt, hlt']

/-- A reference to the third entity from within the first two is pending until it is finished. -/
theorem standing_forward_stages :
    (stage 2).Extends (stage 3) ∧ (stage 3).Extends (stage 4) ∧
      deprecation.standing .standard (stage 2) ⟨2, [1, 0], .empty⟩ = .pendingCompletion ∧
      (∃ d, (deprecation.standing .standard (stage 3) ⟨2, [1, 0], .empty⟩).decision? = some d) ∧
      deprecation.standing .standard (stage 4) ⟨2, [1, 0], .empty⟩ =
        deprecation.standing .standard (stage 3) ⟨2, [1, 0], .empty⟩ := by
  have h : (stage 2).Extends (stage 3) := stage_extends (by decide)
  have h' : (stage 3).Extends (stage 4) := stage_extends (by decide)
  have hk : deprecation.standing .standard (stage 2) ⟨2, [1, 0], .empty⟩ = .pendingCompletion := by
    decide
  obtain ⟨d, hd⟩ := ((standing_forward deprecation .standard ⟨2, [1, 0], .empty⟩ h).2.1 hk).2.1 rfl
  exact ⟨h, h', hk, ⟨d, hd⟩,
    (standing_forward deprecation .standard ⟨2, [1, 0], .empty⟩ h').1 d hd⟩

end CheckRule
end Session
end Deferral
