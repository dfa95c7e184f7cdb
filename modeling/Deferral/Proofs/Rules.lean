/-
# What the rules have in common

Both rules go through the same questions: whether the candidate is finished, whether it is marked
at a site that is not exempt, and whether an entity around the site is marked. They differ in the
mark they look for, in what exempts a site, and in whether containers are heeded at all.

Key definitions: `CheckRule.marks`, `CheckRule.exempts`, `CheckRule.heedsContainers`.
Key theorems: `CheckRule.standing_eq`, `CheckRule.standing_congr`.
-/
import Deferral.Session.Program

namespace Deferral

variable {ε : Type}

/-- What can be seen of the attributes of an entity. -/
def View.attributes (v : View ε) (e : ε) : Attributes := ⟨v.deprecation e, v.experimental e⟩

/-! ### The walk over the containers -/

theorem walkContainers_congr {finished finished' marked marked' : ε → Bool} :
    ∀ {cs : List ε}, (∀ c ∈ cs, finished c = finished' c ∧ marked c = marked' c) →
      walkContainers finished marked cs = walkContainers finished' marked' cs
  | [], _ => rfl
  | c :: cs, h => by
    have hc := h c List.mem_cons_self
    have ih := walkContainers_congr fun d hd => h d (List.mem_cons_of_mem _ hd)
    unfold walkContainers
    rw [hc.1, hc.2, ih]

/-- What each outcome of the walk tells about the containers. -/
theorem walkContainers_spec (finished marked : ε → Bool) : ∀ cs : List ε,
    match walkContainers finished marked cs with
    | .reportable => ∀ c ∈ cs, finished c = true ∧ marked c = false
    | .inapplicable => ∃ c ∈ cs, finished c = true ∧ marked c = true
    | .pendingAmbiguous => ∃ c ∈ cs, finished c = false
    | .pendingCompletion => False
  | [] => by simp
  | c :: cs => by
    have ih := walkContainers_spec finished marked cs
    by_cases hf : finished c = true
    · by_cases hm : marked c = true
      · have hw : walkContainers finished marked (c :: cs) = .inapplicable := by
          simp [walkContainers, hf, hm]
        rw [hw]
        exact ⟨c, List.mem_cons_self, hf, hm⟩
      · have hw : walkContainers finished marked (c :: cs) = walkContainers finished marked cs := by
          simp [walkContainers, hf, hm]
        rw [hw]
        revert ih
        cases walkContainers finished marked cs with
        | reportable =>
          intro ih d hd
          rcases List.mem_cons.mp hd with rfl | hd
          · exact ⟨hf, by simpa using hm⟩
          · exact ih d hd
        | inapplicable =>
          rintro ⟨d, hd, h⟩
          exact ⟨d, List.mem_cons_of_mem _ hd, h⟩
        | pendingAmbiguous =>
          rintro ⟨d, hd, h⟩
          exact ⟨d, List.mem_cons_of_mem _ hd, h⟩
        | pendingCompletion => exact id
    · have hw : walkContainers finished marked (c :: cs) = .pendingAmbiguous := by
        simp [walkContainers, hf]
      rw [hw]
      exact ⟨c, List.mem_cons_self, by simpa using hf⟩

section

variable {finished marked : ε → Bool} {cs : List ε}

theorem walkContainers_reportable (h : walkContainers finished marked cs = .reportable) :
    ∀ c ∈ cs, finished c = true ∧ marked c = false := by
  have hspec := walkContainers_spec finished marked cs
  rwa [h] at hspec

theorem walkContainers_inapplicable (h : walkContainers finished marked cs = .inapplicable) :
    ∃ c ∈ cs, finished c = true ∧ marked c = true := by
  have hspec := walkContainers_spec finished marked cs
  rwa [h] at hspec

theorem walkContainers_pendingAmbiguous
    (h : walkContainers finished marked cs = .pendingAmbiguous) : ∃ c ∈ cs, finished c = false := by
  have hspec := walkContainers_spec finished marked cs
  rwa [h] at hspec

theorem walkContainers_ne_pendingCompletion :
    walkContainers finished marked cs ≠ .pendingCompletion := fun h => by
  have hspec := walkContainers_spec finished marked cs
  rwa [h] at hspec

theorem walkContainers_decided (h : ∀ c ∈ cs, finished c = true) :
    ∃ d, (walkContainers finished marked cs).decision? = some d := by
  rw [walkContainers_of_finished finished marked cs h]
  split
  · exact ⟨.inapplicable, rfl⟩
  · exact ⟨.reportable, rfl⟩

end

theorem pendingOn_eq_pendingCompletion {decided : Bool} :
    pendingOn decided = .pendingCompletion ↔ decided = true := by
  cases decided <;> simp [pendingOn]

theorem decision?_pendingOn (decided : Bool) : (pendingOn decided).decision? = none := by
  cases decided <;> rfl

/-! ### The common form -/

namespace Session
namespace CheckRule

/-- The attributes have the mark that the rule looks for. -/
def marks : CheckRule → Attributes → Bool
  | .deprecation, a => a.deprecation.isSome
  | .experimental, a => a.experimental

/-- Nothing is reported at a site with these flags. -/
def exempts (o : Options) (flags : SiteFlags) : CheckRule → Bool
  | .deprecation => o.policy.verdict flags == .suppress
  | .experimental => flags.contains .suppressExperimental

/-- A marked entity around the site silences the reference. -/
def heedsContainers (o : Options) : CheckRule → Bool
  | .deprecation => o.suppressInDeprecatedContainers
  | .experimental => true

/-- Options under which the deprecation rule does not heed containers. -/
def heedless : Options := { Options.standard with suppressInDeprecatedContainers := false }

variable {o : Options} {v v' : View ε} {r : Reference ε}

/-- Where a reference stands, by either rule. -/
theorem standing_eq (rule : CheckRule) (o : Options) (v : View ε) (r : Reference ε) :
    rule.standing o v r =
      if v.finished r.candidate = false then
        pendingOn (!rule.heedsContainers o || r.containers.all v.finished)
      else if rule.marks (v.attributes r.candidate) = false ∨ rule.exempts o r.flags = true then
        .inapplicable
      else if rule.heedsContainers o = true then
        walkContainers v.finished (fun c => rule.marks (v.attributes c)) r.containers
      else .reportable := by
  cases rule with
  | deprecation =>
    show deprecationStanding o v r = _
    unfold deprecationStanding View.deprecated
    cases hf : v.finished r.candidate with
    | false => simp [heedsContainers]
    | true =>
      cases hd : (v.deprecation r.candidate).isSome with
      | false => simp [marks, View.attributes, hd]
      | true =>
        by_cases hp : o.policy.verdict r.flags = .suppress
        · simp [marks, exempts, View.attributes, hd, hp]
        · simp only [marks, exempts, heedsContainers, View.attributes, hd, hp, beq_iff_eq]
          rfl
  | experimental =>
    show experimentalStanding v r = _
    unfold experimentalStanding
    cases hf : v.finished r.candidate with
    | false => simp [heedsContainers]
    | true => simp [marks, exempts, heedsContainers, View.attributes]

theorem standing_of_unfinished (rule : CheckRule) (h : v.finished r.candidate = false) :
    rule.standing o v r = pendingOn (!rule.heedsContainers o || r.containers.all v.finished) := by
  rw [standing_eq, if_pos h]

/-- Once the candidate is finished, the standing is decided, or the containers decide. -/
theorem standing_of_finished (rule : CheckRule) (h : v.finished r.candidate = true) :
    rule.standing o v r =
      if rule.marks (v.attributes r.candidate) = false ∨ rule.exempts o r.flags = true then
        .inapplicable
      else if rule.heedsContainers o = true then
        walkContainers v.finished (fun c => rule.marks (v.attributes c)) r.containers
      else .reportable := by
  rw [standing_eq, if_neg (by simp [h])]

/-- A standing depends on nothing but what is shown of the entities involved. -/
theorem standing_congr (rule : CheckRule)
    (h : ∀ e ∈ r.candidate :: r.containers,
      v.finished e = v'.finished e ∧ v.attributes e = v'.attributes e) :
    rule.standing o v r = rule.standing o v' r := by
  obtain ⟨hf, ha⟩ := h r.candidate List.mem_cons_self
  have hcs : ∀ c ∈ r.containers,
      v.finished c = v'.finished c ∧ v.attributes c = v'.attributes c :=
    fun c hc => h c (List.mem_cons_of_mem _ hc)
  have hall : r.containers.all v.finished = r.containers.all v'.finished := by
    rw [Bool.eq_iff_iff, List.all_eq_true, List.all_eq_true]
    exact forall₂_congr fun c hc => by rw [(hcs c hc).1]
  have hwalk : walkContainers v.finished (fun c => rule.marks (v.attributes c)) r.containers =
      walkContainers v'.finished (fun c => rule.marks (v'.attributes c)) r.containers :=
    walkContainers_congr fun c hc => ⟨(hcs c hc).1, congrArg rule.marks (hcs c hc).2⟩
  rw [standing_eq, standing_eq, hf, ha, hall, hwalk]

end CheckRule
end Session
end Deferral
