/-
# What a pending standing waits for

A standing is pending because an entity that the reference involves is unfinished; if only the
completion of the candidate is awaited, then it is the candidate that is unfinished, and nothing
is pending any more once it is finished too.

Key theorems: `Session.CheckRule.unfinished_of_pending`, `Session.CheckRule.decided_of_finished`,
`finished_of_unfinishedCount_eq`.
-/
import Deferral.Proofs.Rules

namespace Deferral

variable {ε : Type}

/-! ### Standings -/

theorem Standing.pending_iff {k : Standing} :
    k.decision? = none ↔ k = .pendingCompletion ∨ k = .pendingAmbiguous := by
  cases k <;> simp [Standing.decision?]

namespace Session
namespace CheckRule

variable {o : Options} {v v' : View ε} {r : Reference ε}

/-- Once the candidate is finished, the standing is decided, or left to the containers. -/
theorem decided_or_walk (rule : CheckRule) (o : Options)
    (h : v.finished r.candidate = true) :
    (∃ d, (rule.standing o v r).decision? = some d) ∨
      (rule.heedsContainers o = true ∧
        ∃ marked, rule.standing o v r = walkContainers v.finished marked r.containers) := by
  rw [rule.standing_of_finished h]
  split
  · exact .inl ⟨.inapplicable, rfl⟩
  · split
    · exact .inr ⟨‹_›, _, rfl⟩
    · exact .inl ⟨.reportable, rfl⟩

/-- Only the completion of an unfinished candidate is ever awaited alone. -/
theorem unfinished_of_pendingCompletion (rule : CheckRule)
    (h : rule.standing o v r = .pendingCompletion) : v.finished r.candidate = false := by
  cases hf : v.finished r.candidate with
  | false => rfl
  | true =>
    rcases rule.decided_or_walk o hf with ⟨d, hd⟩ | ⟨-, marked, hw⟩
    · rw [h] at hd
      cases hd
    · exact absurd (hw.symm.trans h) walkContainers_ne_pendingCompletion

/-- Whatever is pending, an entity involved is unfinished. -/
theorem unfinished_of_pending (rule : CheckRule) (h : (rule.standing o v r).decision? = none) :
    ∃ e ∈ r.candidate :: r.containers, v.finished e = false := by
  cases hf : v.finished r.candidate with
  | false => exact ⟨r.candidate, List.mem_cons_self, hf⟩
  | true =>
    rcases rule.decided_or_walk o hf with ⟨d, hd⟩ | ⟨-, marked, hw⟩
    · rw [h] at hd
      cases hd
    · have hk : rule.standing o v r = .pendingAmbiguous := by
        rcases Standing.pending_iff.mp h with hk | hk
        · exact absurd (hw.symm.trans hk) walkContainers_ne_pendingCompletion
        · exact hk
      obtain ⟨c, hc, hcf⟩ := walkContainers_pendingAmbiguous (hw.symm.trans hk)
      exact ⟨c, List.mem_cons_of_mem _ hc, hcf⟩

/-- Where only the completion of the candidate was awaited, its being finished decides. -/
theorem decided_of_finished (rule : CheckRule) (h : rule.standing o v r = .pendingCompletion)
    (hmono : ∀ c ∈ r.containers, v.finished c = true → v'.finished c = true)
    (hf' : v'.finished r.candidate = true) : ∃ d, (rule.standing o v' r).decision? = some d := by
  rw [rule.standing_of_unfinished (rule.unfinished_of_pendingCompletion h),
    pendingOn_eq_pendingCompletion] at h
  rcases rule.decided_or_walk o hf' with hd | ⟨hon, marked, hw⟩
  · exact hd
  · rw [hon, Bool.not_true, Bool.false_or, List.all_eq_true] at h
    rw [hw]
    exact walkContainers_decided fun c hc => hmono c hc (h c hc)

end CheckRule
end Session

/-! ### Counting what is unfinished -/

variable {v v' : View ε} {r : Reference ε}

theorem countP_unfinished_le {es : List ε}
    (h : ∀ e ∈ es, v.finished e = true → v'.finished e = true) :
    es.countP (fun e => !v'.finished e) ≤ es.countP (fun e => !v.finished e) := by
  apply List.countP_mono_left
  intro e he hn
  cases hf : v.finished e with
  | false => rfl
  | true => simp [h e he hf] at hn

theorem unfinishedCount_le
    (h : ∀ e ∈ r.candidate :: r.containers, v.finished e = true → v'.finished e = true) :
    unfinishedCount v' r ≤ unfinishedCount v r :=
  countP_unfinished_le h

/-- As many unfinished entities as before are the same ones, when none became unfinished. -/
theorem finished_of_unfinishedCount_eq
    (h : ∀ e ∈ r.candidate :: r.containers, v.finished e = true → v'.finished e = true)
    (hc : unfinishedCount v r ≤ unfinishedCount v' r) :
    ∀ e ∈ r.candidate :: r.containers, v.finished e = v'.finished e := by
  unfold unfinishedCount at hc
  generalize r.candidate :: r.containers = es at h hc
  induction es with
  | nil => simp
  | cons e es ih =>
    have he := h e List.mem_cons_self
    have hes : ∀ d ∈ es, v.finished d = true → v'.finished d = true :=
      fun d hd => h d (List.mem_cons_of_mem _ hd)
    have hle := countP_unfinished_le hes
    rw [List.countP_cons, List.countP_cons] at hc
    intro d hd
    rcases List.mem_cons.mp hd with rfl | hd
    · cases hf : v.finished d with
      | true => exact (he hf).symm
      | false =>
        cases hf' : v'.finished d with
        | false => rfl
        | true =>
          simp only [hf, hf', Bool.not_false, Bool.not_true, if_true, Bool.false_eq_true,
            if_false] at hc
          omega
    · apply ih hes _ d hd
      cases hf : v.finished e with
      | true =>
        simp only [hf, he hf, Bool.not_true, Bool.false_eq_true, if_false] at hc
        omega
      | false =>
        simp only [hf, Bool.not_false, if_true] at hc
        split at hc
        · omega
        · omega

end Deferral
