/-
# What leaves a reference ambiguous

Whether a reference to a finished candidate is reported may depend on the containers that are
unfinished: with some attributes that they may end with it is, with others it is not. A container
that is finished and marked silences it in any case, wherever it stands. So it depends on the
unfinished ones exactly when there are some and no finished one is marked.

The walk over the containers does not look that far. It stops at the first one that is unfinished or
marked, so it sees a marked container inside the first unfinished one, but none outside of it. It
never takes a reference for decided that is not; but behind an unfinished container it takes for
ambiguous what a marked one silences already.

Key definitions: `ComesTo`, `Session.CheckRule.Undetermined`.
Key theorems: `walkContainers_eq_pendingAmbiguous_iff`, `Session.CheckRule.undetermined_iff`,
`Session.CheckRule.ambiguous_at_first_unfinished`.
-/
import Deferral.Proofs.Verdict
import Mathlib.Tactic.Push

namespace Deferral

variable {ε : Type}

/-! ### Where the walk stops -/

/-- A walk over `cs` comes to the container `c`, with `outer` still ahead: what it has passed is
finished and not marked. -/
def ComesTo (finished marked : ε → Bool) (cs : List ε) (c : ε) (outer : List ε) : Prop :=
  ∃ inner, cs = inner ++ c :: outer ∧ ∀ d ∈ inner, finished d = true ∧ marked d = false

section

variable {finished marked : ε → Bool} {cs outer : List ε} {c : ε}

theorem ComesTo.mem (h : ComesTo finished marked cs c outer) : c ∈ cs := by
  obtain ⟨inner, rfl, -⟩ := h
  simp

theorem ComesTo.mem_of_outer (h : ComesTo finished marked cs c outer) {d : ε} (hd : d ∈ outer) :
    d ∈ cs := by
  obtain ⟨inner, rfl, -⟩ := h
  simp [hd]

/-- What is finished and not marked is passed. -/
theorem walkContainers_append (outer : List ε) : ∀ inner : List ε,
    (∀ d ∈ inner, finished d = true ∧ marked d = false) →
      walkContainers finished marked (inner ++ outer) = walkContainers finished marked outer
  | [], _ => rfl
  | d :: inner, h => by
    obtain ⟨hf, hm⟩ := h d List.mem_cons_self
    have ih := walkContainers_append outer inner fun e he => h e (List.mem_cons_of_mem _ he)
    simpa [walkContainers, hf, hm] using ih

theorem walkContainers_of_unfinished (h : ComesTo finished marked cs c outer)
    (hf : finished c = false) : walkContainers finished marked cs = .pendingAmbiguous := by
  obtain ⟨inner, rfl, hinner⟩ := h
  rw [walkContainers_append _ _ hinner]
  simp [walkContainers, hf]

theorem walkContainers_of_marked (h : ComesTo finished marked cs c outer)
    (hf : finished c = true) (hm : marked c = true) :
    walkContainers finished marked cs = .inapplicable := by
  obtain ⟨inner, rfl, hinner⟩ := h
  rw [walkContainers_append _ _ hinner]
  simp [walkContainers, hf, hm]

/-- A walk that does not pass everything comes to a container that is unfinished or marked. -/
theorem passes_or_comesTo (finished marked : ε → Bool) : ∀ cs : List ε,
    (∀ c ∈ cs, finished c = true ∧ marked c = false) ∨
      ∃ c outer, ComesTo finished marked cs c outer ∧
        (finished c = false ∨ finished c = true ∧ marked c = true)
  | [] => .inl (by simp)
  | c :: cs => by
    by_cases hc : finished c = true ∧ marked c = false
    · rcases passes_or_comesTo finished marked cs with hall | ⟨d, outer, ⟨inner, rfl, hinner⟩, hd⟩
      · left
        intro e he
        rcases List.mem_cons.mp he with rfl | he
        · exact hc
        · exact hall e he
      · right
        refine ⟨d, outer, ⟨c :: inner, rfl, ?_⟩, hd⟩
        intro e he
        rcases List.mem_cons.mp he with rfl | he
        · exact hc
        · exact hinner e he
    · right
      refine ⟨c, cs, ⟨[], rfl, by simp⟩, ?_⟩
      cases hf : finished c with
      | false => exact .inl rfl
      | true =>
        have hm : marked c = true := by simpa [hf] using hc
        exact .inr ⟨rfl, hm⟩

theorem walkContainers_eq_pendingAmbiguous_iff :
    walkContainers finished marked cs = .pendingAmbiguous ↔
      ∃ c outer, ComesTo finished marked cs c outer ∧ finished c = false := by
  constructor
  · intro h
    rcases passes_or_comesTo finished marked cs with hall | ⟨c, outer, hc, hf | ⟨hf, hm⟩⟩
    · obtain ⟨c, hc, hf⟩ := walkContainers_pendingAmbiguous h
      rw [(hall c hc).1] at hf
      cases hf
    · exact ⟨c, outer, hc, hf⟩
    · rw [walkContainers_of_marked hc hf hm] at h
      cases h
  · rintro ⟨c, outer, hc, hf⟩
    exact walkContainers_of_unfinished hc hf

theorem walkContainers_eq_inapplicable_iff :
    walkContainers finished marked cs = .inapplicable ↔
      ∃ c outer, ComesTo finished marked cs c outer ∧ finished c = true ∧ marked c = true := by
  constructor
  · intro h
    rcases passes_or_comesTo finished marked cs with hall | ⟨c, outer, hc, hf | ⟨hf, hm⟩⟩
    · obtain ⟨c, hc, -, hm⟩ := walkContainers_inapplicable h
      rw [(hall c hc).2] at hm
      cases hm
    · rw [walkContainers_of_unfinished hc hf] at h
      cases h
    · exact ⟨c, outer, hc, hf, hm⟩
  · rintro ⟨c, outer, hc, hf, hm⟩
    exact walkContainers_of_marked hc hf hm

/-- Where something is unfinished and nothing finished is marked, the walk finds it. -/
theorem walkContainers_of_unmarked (hf : ∃ c ∈ cs, finished c = false)
    (hm : ∀ c ∈ cs, finished c = true → marked c = false) :
    walkContainers finished marked cs = .pendingAmbiguous := by
  rw [walkContainers_eq_pendingAmbiguous_iff]
  rcases passes_or_comesTo finished marked cs with hall | ⟨c, outer, hc, hcf | ⟨hcf, hcm⟩⟩
  · obtain ⟨c, hc, hcf⟩ := hf
    rw [(hall c hc).1] at hcf
    cases hcf
  · exact ⟨c, outer, hc, hcf⟩
  · rw [hm c hc.mem hcf] at hcm
    cases hcm

/-- Of the finished containers that are marked, a walk that comes to an unfinished one has passed
none, so they are all ahead. -/
theorem ComesTo.mem_outer (h : ComesTo finished marked cs c outer) (hf : finished c = false)
    {d : ε} (hd : d ∈ cs) (hdf : finished d = true) (hdm : marked d = true) : d ∈ outer := by
  obtain ⟨inner, rfl, hinner⟩ := h
  rcases List.mem_append.mp hd with hd | hd
  · rw [(hinner d hd).2] at hdm
    cases hdm
  · rcases List.mem_cons.mp hd with rfl | hd
    · rw [hf] at hdf
      cases hdf
    · exact hd

end

/-! ### What a reference depends on -/

/-- The attributes that entities end with, if the unfinished ones all end with `a`. -/
def View.completedWith (v : View ε) (a : Attributes) (e : ε) : Attributes :=
  if v.finished e = true then v.attributes e else a

theorem View.shows_completedWith (v : View ε) (a : Attributes) : v.Shows (v.completedWith a) := by
  intro e hf
  simp [completedWith, hf]

namespace Session
namespace CheckRule

variable {o : Options} {v : View ε} {final : ε → Attributes} {r : Reference ε}

/-- It depends on what is unfinished whether the reference is to be reported: with some attributes
that the unfinished entities may end with it is, and with others it is not. -/
def Undetermined (o : Options) (v : View ε) (r : Reference ε) (rule : CheckRule) : Prop :=
  (∃ final, v.Shows final ∧ rule.Reports o final r) ∧
    ∃ final, v.Shows final ∧ ¬ rule.Reports o final r

/-- What is left to the containers: the candidate is finished and marked, the site is not exempt,
and containers are heeded. -/
structure LeftToContainers (o : Options) (v : View ε) (r : Reference ε) (rule : CheckRule) :
    Prop where
  finished : v.finished r.candidate = true
  marked : rule.marks (v.attributes r.candidate) = true
  notExempt : rule.exempts o r.flags = false
  heeds : rule.heedsContainers o = true

section

variable {rule : CheckRule} (h : rule.LeftToContainers o v r)
include h

theorem LeftToContainers.standing_eq :
    rule.standing o v r =
      walkContainers v.finished (fun c => rule.marks (v.attributes c)) r.containers := by
  have hnot : ¬ (rule.marks (v.attributes r.candidate) = false ∨
      rule.exempts o r.flags = true) := by
    simp [h.marked, h.notExempt]
  rw [rule.standing_of_finished h.finished, if_neg hnot, if_pos h.heeds]

theorem LeftToContainers.reports_iff (hv : v.Shows final) :
    rule.Reports o final r ↔ ∀ c ∈ r.containers, rule.marks (final c) = false := by
  have hmarked : rule.marks (final r.candidate) = true := by
    rw [← hv _ h.finished]
    exact h.marked
  rw [rule.reports_iff]
  simp [hmarked, h.notExempt, h.heeds]

/-- A reference that is left to its containers depends on the unfinished ones exactly when there are
some and no finished one is marked. -/
theorem undetermined_iff :
    rule.Undetermined o v r ↔ (∃ c ∈ r.containers, v.finished c = false) ∧
      ∀ c ∈ r.containers, v.finished c = true → rule.marks (v.attributes c) = false := by
  constructor
  · rintro ⟨⟨final, hv, hreports⟩, ⟨final', hv', hsilent⟩⟩
    rw [h.reports_iff hv] at hreports
    rw [h.reports_iff hv'] at hsilent
    push Not at hsilent
    have hunmarked : ∀ c ∈ r.containers, v.finished c = true →
        rule.marks (v.attributes c) = false := by
      intro c hc hf
      rw [hv c hf]
      exact hreports c hc
    refine ⟨?_, hunmarked⟩
    obtain ⟨c, hc, hm⟩ := hsilent
    -- a finished container ends with what is shown of it, and that is not marked
    refine ⟨c, hc, Bool.eq_false_iff.mpr fun hf => hm ?_⟩
    rw [← hv' c hf]
    exact hunmarked c hc hf
  · rintro ⟨⟨c, hc, hf⟩, hunmarked⟩
    refine ⟨⟨_, v.shows_completedWith .plain, ?_⟩,
      ⟨_, v.shows_completedWith ⟨some .plain, true⟩, ?_⟩⟩
    · rw [h.reports_iff (v.shows_completedWith _)]
      intro d hd
      unfold View.completedWith
      split
      · exact hunmarked d hd ‹_›
      · cases rule <;> rfl
    · rw [h.reports_iff (v.shows_completedWith _)]
      intro hall
      have hmarked : rule.marks (v.completedWith ⟨some .plain, true⟩ c) = true := by
        unfold View.completedWith
        rw [if_neg (by simp [hf])]
        cases rule <;> rfl
      rw [hall c hc] at hmarked
      cases hmarked

/-- Of what is undetermined, nothing is ever taken for decided. -/
theorem standing_of_undetermined (hu : rule.Undetermined o v r) :
    rule.standing o v r = .pendingAmbiguous := by
  obtain ⟨hf, hm⟩ := (undetermined_iff h).mp hu
  rw [h.standing_eq]
  exact walkContainers_of_unmarked hf hm

/-- A reference is needlessly ambiguous when a finished container outside the first unfinished one
is marked, and none inside is. -/
theorem ambiguous_not_undetermined_iff :
    (rule.standing o v r = .pendingAmbiguous ∧ ¬ rule.Undetermined o v r) ↔
      ∃ c outer, ComesTo v.finished (fun c => rule.marks (v.attributes c)) r.containers c outer ∧
        v.finished c = false ∧
          ∃ d ∈ outer, v.finished d = true ∧ rule.marks (v.attributes d) = true := by
  rw [h.standing_eq, walkContainers_eq_pendingAmbiguous_iff, undetermined_iff h]
  constructor
  · rintro ⟨⟨c, outer, hc, hf⟩, hnot⟩
    push Not at hnot
    obtain ⟨d, hd, hdf, hdm⟩ := hnot ⟨c, hc.mem, hf⟩
    rw [Bool.ne_false_iff] at hdm
    exact ⟨c, outer, hc, hf, d, hc.mem_outer hf hd hdf hdm, hdf, hdm⟩
  · rintro ⟨c, outer, hc, hf, d, hd, hdf, hdm⟩
    refine ⟨⟨c, outer, hc, hf⟩, fun hu => ?_⟩
    rw [hu.2 d (hc.mem_of_outer hd) hdf] at hdm
    cases hdm

end

/-- **A reference is ambiguous at its first unfinished container.** Where the candidate is finished
and deprecated, the policy does not silence the site and containers count, it depends on the
unfinished containers whether the reference is reported exactly when there are some and no finished
one is deprecated. The standing is ambiguous then, but also where a deprecated container
stands outside the first unfinished one: it is ambiguous exactly when the containers inside the
first unfinished one are not deprecated, and inapplicable exactly when the containers inside the
first deprecated one are all finished. -/
theorem ambiguous_at_first_unfinished (hf : v.finished r.candidate = true)
    (hd : v.deprecated r.candidate = true) (hv : o.policy.verdict r.flags = .report)
    (ho : o.suppressInDeprecatedContainers = true) :
    (deprecation.Undetermined o v r ↔ (∃ c ∈ r.containers, v.finished c = false) ∧
      ∀ c ∈ r.containers, v.finished c = true → v.deprecated c = false) ∧
    (deprecation.Undetermined o v r → deprecation.standing o v r = .pendingAmbiguous) ∧
    (deprecation.standing o v r = .pendingAmbiguous ↔
      ∃ c outer, ComesTo v.finished v.deprecated r.containers c outer ∧ v.finished c = false) ∧
    (deprecation.standing o v r = .inapplicable ↔
      ∃ c outer, ComesTo v.finished v.deprecated r.containers c outer ∧
        v.finished c = true ∧ v.deprecated c = true) ∧
    ((deprecation.standing o v r = .pendingAmbiguous ∧ ¬ deprecation.Undetermined o v r) ↔
      ∃ c outer, ComesTo v.finished v.deprecated r.containers c outer ∧ v.finished c = false ∧
        ∃ d ∈ outer, v.finished d = true ∧ v.deprecated d = true) := by
  have hopen : deprecation.exempts o r.flags = false := by simp [exempts, hv]
  have h : deprecation.LeftToContainers o v r := ⟨hf, hd, hopen, ho⟩
  refine ⟨undetermined_iff h, standing_of_undetermined h, ?_, ?_, ambiguous_not_undetermined_iff h⟩
  · rw [h.standing_eq]
    exact walkContainers_eq_pendingAmbiguous_iff
  · rw [h.standing_eq]
    exact walkContainers_eq_inapplicable_iff

/-- An old method, and a site in an unfinished method of an old type. -/
def sheltered : Program where
  entities :=
    [⟨0, "Outer", .type, none, ⟨some .plain, false⟩, .source true true .plain⟩,
      ⟨1, "Inner", .method, some 0, .plain, .source true false .plain⟩,
      ⟨2, "Old", .method, none, ⟨some .plain, false⟩, .source true true .plain⟩]

/-- What is seen in the beginning. -/
def shelteredView : View Nat := (World.initial sheltered).view sheltered mainThread

/-- A reference to the old method from that site. -/
def shelteredUse : Reference Nat := sheltered.reference 2 ⟨some 1, .empty, ⟨0, ⟨0, 1⟩⟩⟩

/-- The old type silences the site, whatever becomes of the method in it. -/
theorem ambiguous_not_undetermined_sheltered :
    shelteredView.finished shelteredUse.candidate = true ∧
      shelteredView.deprecated shelteredUse.candidate = true ∧
      Options.standard.policy.verdict shelteredUse.flags = .report ∧
      Options.standard.suppressInDeprecatedContainers = true ∧
      deprecation.standing .standard shelteredView shelteredUse = .pendingAmbiguous ∧
      ¬ deprecation.Undetermined .standard shelteredView shelteredUse := by
  have hf : shelteredView.finished shelteredUse.candidate = true := by decide
  have hd : shelteredView.deprecated shelteredUse.candidate = true := by decide
  have hv : Options.standard.policy.verdict shelteredUse.flags = .report := by decide
  have ho : Options.standard.suppressInDeprecatedContainers = true := rfl
  have houter : ∃ c outer, ComesTo shelteredView.finished shelteredView.deprecated
      shelteredUse.containers c outer ∧ shelteredView.finished c = false ∧
        ∃ d ∈ outer, shelteredView.finished d = true ∧ shelteredView.deprecated d = true :=
    ⟨1, [0], ⟨[], by decide, by simp⟩, by decide, 0, by simp, by decide, by decide⟩
  obtain ⟨-, -, -, -, hneedless⟩ := ambiguous_at_first_unfinished hf hd hv ho
  exact ⟨hf, hd, hv, ho, hneedless.mpr houter⟩

/-- A deprecated container that is finished does not make a reference inapplicable, if one inside of
it is unfinished. -/
theorem outer_deprecation_unseen :
    ¬ ∀ (o : Options) (v : View Nat) (r : Reference Nat), v.finished r.candidate = true →
      v.deprecated r.candidate = true → o.policy.verdict r.flags = .report →
        o.suppressInDeprecatedContainers = true →
          (∃ c ∈ r.containers, v.finished c = true ∧ v.deprecated c = true) →
            deprecation.standing o v r = .inapplicable := by
  intro h
  have hstanding := h .standard shelteredView shelteredUse (by decide) (by decide) (by decide) rfl
    ⟨0, by decide, by decide, by decide⟩
  revert hstanding
  decide

end CheckRule
end Session
end Deferral
