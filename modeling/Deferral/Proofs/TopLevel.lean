/-
# Walks while no binder runs

What a check is left undecided for is a binder that runs further out. So a walk over a bag that
begins while no binder runs resolves every entry there is, and its report has what they all have
to report. But it walks over the entries that there were when it began. The binders that it starts
may push onto the same bag, and what they push is left as it is: entries can be pending afterwards,
all of them pushed during the walk.

Key definitions: `Session.Clears`.
Key theorems: `Session.resolved_of_collect`, `Session.collect_clears`.
-/
import Mathlib
import Deferral.Proofs.Collecting
import Deferral.Proofs.Recovery

namespace Deferral
namespace Session

variable {p : Program} {run : Runner} {at_ : Scope} {me : Thread} {w w' : World} {c c' : Course}
variable {cell : Nat} {bag : String} {ds : List Diagnostic}

theorem World.Idle.alone (h : w.Idle) (me : Thread) (r : Reference Nat) : w.Alone me r :=
  fun e _ t ht => absurd ht (h e t)

/-- While no binder runs, what is settled has a result. -/
theorem World.Settled.resolved (h : w.Settled p me cell) (hidle : w.Idle) :
    ∃ o, w.result? cell = some o := by
  rcases h with hresult | ⟨_, _, _, _, _, _, -, -, hawait⟩
  · exact hresult
  · obtain ⟨e, -, howned⟩ := hawait.owned
    exact absurd howned (hidle e me)

theorem World.isResolved_of_result? {o : Shared Finding} (h : w.result? cell = some o) :
    w.isResolved cell = true := by
  cases hr : w.isResolved cell with
  | true => rfl
  | false =>
    rw [World.result?_eq_none_of_pending hr] at h
    cases h

/-- A walk that begins while no binder runs resolves what is in the bag, and reports what that has
to report. -/
theorem resolved_of_collect (hp : p.Sourced) (hlaw : LawfulRunner p run)
    (hground : GroundedRunner p run) (hg : c.now.Grounded p at_.thread) (hidle : c.now.Idle)
    (hentries : c.now.Sourced p (c.now.bags bag)) (h : collect p run at_ bag c = .ok ds c') :
    ds = Diagnostic.inReportOrder (c'.now.published (c.now.bags bag)) ∧
      ∀ cell ∈ c.now.bags bag, ∃ o, c'.now.result? cell = some o := by
  obtain ⟨found, hfound, rfl⟩ := collect_eq_ok h
  obtain ⟨rfl, hsettled⟩ := settled_of_resolveEach hp hlaw hground hentries hg
    (hidle.alone at_.thread) hfound
  have hidle' : c'.now.Idle :=
    hidle.later ((lawful_collect hlaw bag).ok hg.sound hg.hosts h).later
  exact ⟨rfl, fun cell hm => (hsettled cell hm).resolved hidle'⟩

/-- The entries of a bag that are pending are among those that were pushed onto resolved ones. -/
theorem World.pending_append {cells more : List Nat} (hbag : w.bags bag = cells ++ more)
    (h : ∀ cell ∈ cells, w.isResolved cell = true) :
    w.pending bag = more.countP fun cell => !w.isResolved cell := by
  have hcells : cells.countP (fun cell => !w.isResolved cell) = 0 := by
    rw [List.countP_eq_zero]
    intro cell hm
    simp [h cell hm]
  rw [World.pending, hbag, List.countP_append, hcells, Nat.zero_add]

/-- What a walk that began in the world `w`, and has returned `ds`, leaves behind. -/
structure Clears (bag : String) (w : World) (ds : List Diagnostic) (c' : Course) : Prop where
  /-- What was in the bag is resolved. -/
  resolved : ∀ cell ∈ w.bags bag, c'.now.isResolved cell = true
  /-- What it has to report is reported. -/
  reported : ∀ cell ∈ w.bags bag, ∀ d, c'.now.report? cell = some d → d ∈ ds
  /-- The pending entries are among those that were pushed during the walk. -/
  pending : ∃ more, c'.now.bags bag = w.bags bag ++ more ∧
    c'.now.pending bag = more.countP fun cell => !c'.now.isResolved cell
  /-- If nothing was pushed, then nothing is pending. -/
  emptied : c'.now.bags bag = w.bags bag → c'.now.pending bag = 0

/-- **A walk while no binder runs resolves what was in the bag.** At each moment of a session at
which no binder runs, a walk over a bag of known diagnostics and of checks of references between
entities with binders leaves pending, when it returns, only what was pushed meanwhile, and its
report has the diagnostic of every entry that there was and that has one. -/
theorem collect_clears (hp : p.Sourced) {depth within : Nat} {steps : List Step}
    (hw : w ∈ p.moments depth steps) (hidle : w.Idle) (hmain : at_.thread = mainThread)
    (hentries : w.Sourced p (w.bags bag))
    (h : collect p (performAll p within) at_ bag ⟨w, []⟩ = .ok ds c') : Clears bag w ds c' := by
  have hg : w.Grounded p at_.thread := hmain ▸ grounded_of_mem_moments hp hw
  have hlaw := lawful_performAll p within
  have hpass := (lawful_collect hlaw bag).ok (c := ⟨w, []⟩) hg.sound hg.hosts h
  obtain ⟨rfl, hresults⟩ :=
    resolved_of_collect (c := ⟨w, []⟩) hp hlaw (grounded_performAll hp within) hg hidle hentries h
  have hresolved : ∀ cell ∈ w.bags bag, c'.now.isResolved cell = true := by
    intro cell hm
    obtain ⟨o, ho⟩ := hresults cell hm
    exact World.isResolved_of_result? ho
  refine ⟨hresolved, fun cell hm d hd => ?_, ?_, fun hsame => ?_⟩
  · rw [Diagnostic.inReportOrder, List.mem_mergeSort]
    exact List.mem_filterMap.mpr ⟨cell, hm, hd⟩
  · obtain ⟨more, hmore⟩ := hpass.later.bags bag
    exact ⟨more, hmore.symm, World.pending_append hmore.symm hresolved⟩
  · have hbag : c'.now.bags bag = w.bags bag ++ [] := by rw [hsame, List.append_nil]
    exact World.pending_append hbag hresolved

/-- Two old methods. Completing the first one uses the second one. -/
def chained : Program where
  entities :=
    [⟨0, "First", .method, none, ⟨some .plain, false⟩,
        .source false false ⟨[.guarded (.recordReference 1 openSite .standard "uses")], 0⟩⟩,
      ⟨1, "Second", .method, none, ⟨some .plain, false⟩, .source false false .plain⟩]

/-- The first method is used. -/
def chainedUse : List Step := [.guarded (.recordReference 0 openSite .standard "uses")]

/-- Where a session goes on from that has used the first method. -/
def chainedCourse : Course :=
  (performAll chained 3 topLevel chainedUse).course ⟨World.initial chained, []⟩

/-- A walk over the uses. -/
def chainedWalk : Act (List Diagnostic) := collect chained (performAll chained 2) topLevel "uses"

theorem chainedCourse_idle : chainedCourse.now.Idle := by
  have hends : (performAll chained 3 topLevel chainedUse).interruption?
      ⟨World.initial chained, []⟩ = none := by cbv
  obtain ⟨⟨⟩, hsession⟩ := Act.eq_ok_of_interruption? hends
  exact session_idle (show chained.session 3 _ = .ok ⟨⟩ chainedCourse from hsession)

/-- The use of the second method is pushed while the first one is completed for the walk. -/
theorem collect_clears_chained :
    chained.Sourced ∧
      chainedCourse.now ∈ chained.moments 3 chainedUse ∧
      chainedCourse.now.Idle ∧
      chainedCourse.now.Sourced chained (chainedCourse.now.bags "uses") ∧
      ∃ ds c', chainedWalk ⟨chainedCourse.now, []⟩ = .ok ds c' ∧
        chainedCourse.now.bags "uses" = [0] ∧ c'.now.bags "uses" = [0, 1] ∧
        Clears "uses" chainedCourse.now ds c' := by
  have hp : chained.Sourced := by decide
  have hmem : chainedCourse.now ∈ chained.moments 3 chainedUse := List.mem_cons_self
  have hbag : chainedCourse.now.bags "uses" = [0] := by cbv
  have hentries : chainedCourse.now.Sourced chained (chainedCourse.now.bags "uses") := by
    have h : decide (chainedCourse.now.Sourced chained (chainedCourse.now.bags "uses")) = true := by
      cbv
    exact of_decide_eq_true h
  have hends : chainedWalk.interruption? ⟨chainedCourse.now, []⟩ = none := by cbv
  have hafter : (chainedWalk.course ⟨chainedCourse.now, []⟩).now.bags "uses" = [0, 1] := by cbv
  obtain ⟨ds, hwalk⟩ := Act.eq_ok_of_interruption? hends
  exact ⟨hp, hmem, chainedCourse_idle, hentries, ds, _, hwalk, hbag, hafter,
    collect_clears hp hmem chainedCourse_idle rfl hentries hwalk⟩

/-- A walk at top level returns with an entry pending that has something to report: a second walk
reports it too, and leaves nothing pending. -/
theorem collect_leaves_pending :
    chained.Sourced ∧ chainedCourse.now.Idle ∧ chainedCourse.now.nextThread = mainThread + 1 ∧
      ∃ ds c' ds' c'', chainedWalk chainedCourse = .ok ds c' ∧ c'.now.pending "uses" = 1 ∧
        ds.map (·.message) = ["`First` is deprecated"] ∧
        chainedWalk c' = .ok ds' c'' ∧ c''.now.pending "uses" = 0 ∧
        ds'.map (·.message) = ["`First` is deprecated", "`Second` is deprecated"] := by
  have hone : chainedCourse.now.nextThread = mainThread + 1 := by cbv
  have hfirst : (chainedWalk.answer? chainedCourse).map (·.map (·.message)) =
      some ["`First` is deprecated"] := by cbv
  have hpending : (chainedWalk.course chainedCourse).now.pending "uses" = 1 := by cbv
  have hsecond : (chainedWalk.answer? (chainedWalk.course chainedCourse)).map (·.map (·.message)) =
      some ["`First` is deprecated", "`Second` is deprecated"] := by cbv
  have hnone :
      (chainedWalk.course (chainedWalk.course chainedCourse)).now.pending "uses" = 0 := by cbv
  obtain ⟨ds, hds, hmessages⟩ := Option.map_eq_some_iff.mp hfirst
  obtain ⟨ds', hds', hmessages'⟩ := Option.map_eq_some_iff.mp hsecond
  exact ⟨by decide, chainedCourse_idle, hone, ds, _, ds', _, Act.eq_ok_of_answer? hds, hpending,
    hmessages, Act.eq_ok_of_answer? hds', hnone, hmessages'⟩

end Session
end Deferral
