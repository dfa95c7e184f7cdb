/-
# What is decided stays decided

As time goes on, more entities are finished, and those that are finished stay as they are. A walk
over containers that has come to a decision has looked at finished ones only, so it comes to the
same decision later, and so does each standing that is decided.

Key definitions: `View.Extends`.
Key theorems: `Session.CheckRule.standing_stable`.
-/
import Deferral.Proofs.Verdict

namespace Deferral

variable {ε : Type}

/-- What is finished in the first view is finished in the second, with the same attributes. -/
structure View.Extends (v v' : View ε) : Prop where
  finished : ∀ e, v.finished e = true → v'.finished e = true
  attributes : ∀ e, v.finished e = true → v'.attributes e = v.attributes e

theorem View.Extends.refl (v : View ε) : v.Extends v := ⟨fun _ h => h, fun _ _ => rfl⟩

/-- Only finished containers decide a walk. -/
theorem walkContainers_stable {finished finished' marked marked' : ε → Bool} : ∀ {cs : List ε},
    (∀ c ∈ cs, finished c = true → finished' c = true ∧ marked' c = marked c) →
      walkContainers finished marked cs ≠ .pendingAmbiguous →
        walkContainers finished' marked' cs = walkContainers finished marked cs
  | [], _, _ => rfl
  | c :: cs, h, hne => by
    have hrest : ∀ d ∈ cs, finished d = true → finished' d = true ∧ marked' d = marked d :=
      fun d hd => h d (List.mem_cons_of_mem _ hd)
    unfold walkContainers at hne ⊢
    cases hf : finished c with
    | false => simp [hf] at hne
    | true =>
      obtain ⟨hf', hm'⟩ := h c List.mem_cons_self hf
      rw [hf', hm']
      cases hm : marked c with
      | true => rfl
      | false =>
        have hne' : walkContainers finished marked cs ≠ .pendingAmbiguous := by
          simpa [hf, hm] using hne
        simpa using walkContainers_stable hrest hne'

namespace Session
namespace CheckRule

variable {o : Options} {v v' : View ε} {r : Reference ε} {d : Decision}

/-- A standing that is decided stays as it is. -/
theorem standing_stable (rule : CheckRule) (h : v.Extends v')
    (hd : (rule.standing o v r).decision? = some d) :
    rule.standing o v' r = rule.standing o v r := by
  have hf := rule.finished_of_decided hd
  have hmarks : ∀ e, v.finished e = true →
      rule.marks (v'.attributes e) = rule.marks (v.attributes e) :=
    fun e he => congrArg rule.marks (h.attributes e he)
  rw [rule.standing_of_finished hf] at hd
  rw [rule.standing_of_finished hf, rule.standing_of_finished (h.finished _ hf), hmarks _ hf]
  split
  · rfl
  · rename_i hopen
    rw [if_neg hopen] at hd
    split
    · rename_i hheeds
      rw [if_pos hheeds] at hd
      apply walkContainers_stable
      · exact fun c _ hc => ⟨h.finished c hc, hmarks c hc⟩
      · intro hambiguous
        rw [hambiguous] at hd
        cases hd
    · rfl

end CheckRule
end Session
end Deferral
