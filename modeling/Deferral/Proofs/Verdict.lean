/-
# What a reference comes to

Once every entity is finished, a reference either is to be reported or is not, and which of the
two follows from the attributes that the entities end with, the flags of the site and the options.
A standing is taken earlier, from a view in which some entities are unfinished. A view that shows
of each finished entity what it ends with can leave a reference pending, but where it decides, it
decides as the complete view would.

Key definitions: `View.Shows`, `Session.CheckRule.Reports`, `Session.Program.final`.
Key theorems: `Session.CheckRule.reports_iff_of_decided`.
-/
import Deferral.Proofs.Rules
import Deferral.Session.World

namespace Deferral

variable {ε : Type}

/-- The view shows of each finished entity the attributes that it ends with. -/
def View.Shows (v : View ε) (final : ε → Attributes) : Prop :=
  ∀ e, v.finished e = true → v.attributes e = final e

/-! ### The outcome -/

namespace Session

/-- The reference is to be reported, where `final` gives the attributes that entities end with. -/
def CheckRule.Reports (o : Options) (final : ε → Attributes) (r : Reference ε) : CheckRule → Prop
  | .deprecation =>
    (final r.candidate).deprecation.isSome = true ∧ o.policy.verdict r.flags = .report ∧
      (o.suppressInDeprecatedContainers = true →
        ∀ c ∈ r.containers, (final c).deprecation = none)
  | .experimental =>
    (final r.candidate).experimental = true ∧
      r.flags.contains .suppressExperimental = false ∧
      ∀ c ∈ r.containers, (final c).experimental = false

namespace CheckRule

variable {o : Options} {v : View ε} {final : ε → Attributes} {r : Reference ε}

/-- What is to be reported, in the common form of the rules. -/
theorem reports_iff (rule : CheckRule) :
    rule.Reports o final r ↔
      rule.marks (final r.candidate) = true ∧ rule.exempts o r.flags = false ∧
        (rule.heedsContainers o = true → ∀ c ∈ r.containers, rule.marks (final c) = false) := by
  cases rule with
  | deprecation =>
    have hverdict : o.policy.verdict r.flags = .report ↔
        (o.policy.verdict r.flags == .suppress) = false := by
      cases o.policy.verdict r.flags <;> decide
    simp [Reports, marks, exempts, heedsContainers, hverdict]
  | experimental => simp [Reports, marks, exempts, heedsContainers]

/-- Nothing is decided about an unfinished candidate. -/
theorem finished_of_decided (rule : CheckRule) {d : Decision}
    (h : (rule.standing o v r).decision? = some d) : v.finished r.candidate = true := by
  cases hf : v.finished r.candidate with
  | true => rfl
  | false =>
    rw [rule.standing_of_unfinished hf, decision?_pendingOn] at h
    cases h

theorem reports_of_reportable (hv : v.Shows final) (rule : CheckRule)
    (h : rule.standing o v r = .reportable) : rule.Reports o final r := by
  have hf : v.finished r.candidate = true :=
    rule.finished_of_decided (o := o) (d := .reportable) (by rw [h]; rfl)
  rw [rule.standing_of_finished hf, hv _ hf] at h
  rw [reports_iff]
  split at h
  · cases h
  · rename_i hopen
    simp only [not_or, Bool.not_eq_false, Bool.not_eq_true] at hopen
    refine ⟨hopen.1, hopen.2, fun hon c hc => ?_⟩
    rw [if_pos hon] at h
    obtain ⟨hcf, hcm⟩ := walkContainers_reportable h c hc
    rwa [hv c hcf] at hcm

theorem not_reports_of_inapplicable (hv : v.Shows final) (rule : CheckRule)
    (h : rule.standing o v r = .inapplicable) : ¬ rule.Reports o final r := by
  have hf : v.finished r.candidate = true :=
    rule.finished_of_decided (o := o) (d := .inapplicable) (by rw [h]; rfl)
  rw [rule.standing_of_finished hf, hv _ hf] at h
  rw [reports_iff]
  rintro ⟨hmarked, hopen, hcontainers⟩
  rw [if_neg (by simp [hmarked, hopen])] at h
  split at h
  · rename_i hon
    obtain ⟨c, hc, hcf, hcm⟩ := walkContainers_inapplicable h
    rw [hv c hcf, hcontainers hon c hc] at hcm
    cases hcm
  · cases h

/-- What is decided from a view is what is right in the end. -/
theorem reports_iff_of_decided (hv : v.Shows final) (rule : CheckRule) {d : Decision}
    (h : (rule.standing o v r).decision? = some d) : rule.Reports o final r ↔ d = .reportable := by
  cases hk : rule.standing o v r with
  | reportable =>
    rw [hk] at h
    cases h
    simp [rule.reports_of_reportable hv hk]
  | inapplicable =>
    rw [hk] at h
    cases h
    simp [rule.not_reports_of_inapplicable hv hk]
  | pendingCompletion =>
    rw [hk] at h
    cases h
  | pendingAmbiguous =>
    rw [hk] at h
    cases h

end CheckRule

/-! ### In a session -/

namespace Program

/-- The attributes that are seen of the entity at a position once it is finished. -/
def final (p : Program) (e : Nat) : Attributes :=
  match (p.entity e).behaviour with
  | .source _ _ _ => (p.entity e).attributes
  | .stub _ _ => ⟨(p.entity e).attributes.deprecation, false⟩
  | .bare _ => ⟨(p.entity e).attributes.deprecation, false⟩

/-- The diagnostic for a reference that is to be reported. -/
def report (p : Program) (candidate : Nat) (ctx : Context) (opts : Options) :
    CheckRule → Diagnostic
  | .deprecation =>
    deprecationReport opts (p.entity candidate).named (p.final candidate).deprecation
      ctx.flags ctx.site
  | .experimental =>
    let e := p.entity candidate
    { code := "EXP0001"
      severity := .warning
      message := e.kind.word ++ " `" ++ e.name ++ "` is experimental and may change or be removed"
      primary := ctx.site
      subject := some ⟨e.id, e.name⟩
      notes := []
      flags := ctx.flags }

/-- What a check comes to: the diagnostic, or nothing to report. -/
def Finds (p : Program) (rule : CheckRule) (candidate : Nat) (ctx : Context) (opts : Options)
    (f : Finding) : Prop :=
  (rule.Reports opts p.final (p.reference candidate ctx) ∧
      f = .report (p.report candidate ctx opts rule)) ∨
    (¬ rule.Reports opts p.final (p.reference candidate ctx) ∧ f = .void)

end Program
end Session
end Deferral
