/-
# Memoized results are final

A check is often resolved before the session is over: inside a binder, with entities around it
still unfinished, or by a resolution nested in another one of the same diagnostic. What is
memoized then stays. It is what the check comes to once every entity is finished: the report of the
reference exactly when the reference is to be reported, and nothing to report otherwise.

Key definitions: `Session.World.Memoized`.
Key theorems: `Session.memoized_report_iff`.
-/
import Mathlib
import Deferral.Proofs.Conduct

namespace Deferral
namespace Session

/-- The diagnostic with number `i` checks a reference, and is resolved. -/
def World.Memoized (w : World) (i : Nat) (rule : CheckRule) (candidate : Nat) (ctx : Context)
    (opts : Options) (o : Shared Finding) : Prop :=
  ∃ slot calls, w.cells[i]? = some (.deferred (.check rule candidate ctx opts) slot calls) ∧
    slot.stored = some o

theorem World.Sound.finds {p : Program} {w : World} (h : w.Sound p) {i : Nat} {rule : CheckRule}
    {candidate : Nat} {ctx : Context} {opts : Options} {o : Shared Finding}
    (hm : w.Memoized i rule candidate ctx opts o) : p.Finds rule candidate ctx opts o.value := by
  obtain ⟨slot, calls, hc, ho⟩ := hm
  exact h.cells _ (List.mem_of_getElem? hc) o ho

/-- **Memoized results are final.** At each moment of a session, whatever it is nested in, a check
that is resolved is resolved to its report if the reference is to be reported, by what entities end
with, and to nothing otherwise. -/
theorem memoized_report_iff {p : Program} {depth : Nat} {steps : List Step} {w : World}
    (hw : w ∈ p.moments depth steps) {i candidate : Nat} {rule : CheckRule} {ctx : Context}
    {opts : Options} {o : Shared Finding} (hm : w.Memoized i rule candidate ctx opts o) :
    (o.value = .report (p.report candidate ctx opts rule) ↔
        rule.Reports opts p.final (p.reference candidate ctx)) ∧
      (o.value = .void ↔ ¬ rule.Reports opts p.final (p.reference candidate ctx)) := by
  have hf := (sound_of_mem_moments hw).finds hm
  rcases hf with ⟨hr, hv⟩ | ⟨hr, hv⟩
  · simp [hr, hv]
  · simp [hr, hv]

/-- An old entity, and an inner one whose outer one has two checks resolved in its binder. -/
def nested : Program where
  entities :=
    [⟨0, "Outer", .type, none, .plain,
        .source false false ⟨[.guarded (.resolve "silenced"), .guarded (.resolve "open")], 0⟩⟩,
      ⟨1, "Inner", .method, some 0, ⟨some .plain, false⟩, .source false false .plain⟩,
      ⟨2, "Old", .method, none, ⟨some .plain, true⟩, .source false false .plain⟩]

/-- A site inside the inner entity. -/
def nestedSite : Context := ⟨some 1, .empty, ⟨0, ⟨0, 1⟩⟩⟩

/-- A site that nothing encloses. -/
def openSite : Context := { nestedSite with containing := none }

/-- Two checks of the old entity, the first of which is resolved. -/
def nestedSteps : List Step :=
  [.guarded (.check "silenced" .deprecation 2 nestedSite .standard),
    .guarded (.check "open" .experimental 2 openSite .standard),
    .guarded (.resolve "silenced")]

/-- What the second check reports. -/
def experimentalOld : Diagnostic where
  code := "EXP0001"
  severity := .warning
  message := "method `Old` is experimental and may change or be removed"
  primary := ⟨0, ⟨0, 1⟩⟩
  subject := some ⟨2, "Old"⟩
  notes := []
  flags := .empty

/-- Forcing the outer entity for the first check resolves both checks inside its binder. -/
theorem memoized_while_binding :
    ∃ w ∈ nested.moments 3 nestedSteps, ∃ silent report,
      (w.bindings 0).completion = .inProgress mainThread ∧
        w.Memoized 0 .deprecation 2 nestedSite .standard silent ∧
        w.Memoized 1 .experimental 2 openSite .standard report ∧
        silent.value = .void ∧
        report.value = .report experimentalOld ∧
        ¬ CheckRule.deprecation.Reports .standard nested.final
          (nested.reference 2 nestedSite) ∧
        CheckRule.experimental.Reports .standard nested.final
          (nested.reference 2 openSite) := by
  have h : ((nested.moments 3 nestedSteps)[7]?.map fun w =>
      ((w.bindings 0).completion, w.cells)) =
        some (.inProgress mainThread,
          [.deferred (.check .deprecation 2 nestedSite .standard) ⟨some voidObject, 0⟩ 2,
            .deferred (.check .experimental 2 openSite .standard)
              ⟨some ⟨1, .report experimentalOld⟩, 0⟩ 1]) := by
    cbv
  obtain ⟨w, hw, hc⟩ := Option.map_eq_some_iff.mp h
  have hmem := List.mem_of_getElem? hw
  obtain ⟨hbinding, hcells⟩ := Prod.mk.inj hc
  have hsilent : w.Memoized 0 .deprecation 2 nestedSite .standard voidObject :=
    ⟨_, _, congrArg (·[0]?) hcells, rfl⟩
  have hreport : w.Memoized 1 .experimental 2 openSite .standard _ :=
    ⟨_, _, congrArg (·[1]?) hcells, rfl⟩
  exact ⟨w, hmem, _, _, hbinding, hsilent, hreport, rfl, rfl,
    (memoized_report_iff hmem hsilent).2.mp rfl, (memoized_report_iff hmem hreport).1.mp rfl⟩

end Session
end Deferral
