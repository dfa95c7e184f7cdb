/-
# What a report agrees with

A walk over a bag may run binders that resolve the same diagnostics, walk over the same bag or put
more into it. Still, when it returns, the report is what can be read off the diagnostics themselves:
what those entries have to report that were there at the beginning and are resolved by then. An
entry that was left undecided at its turn awaits a binder that the walk is nested in, so it is
undecided still; and what was pushed meanwhile stands behind the entries there were and is left for
a later walk.

Key definitions: `Session.World.Settled`, `Session.Collects`.
Key theorems: `Session.settled_of_resolveEach`, `Session.collect_agrees`.
-/
import Mathlib
import Deferral.Proofs.Awaiting
import Deferral.Proofs.ByteOrder

namespace Deferral
namespace Session

variable {p : Program} {run : Runner} {at_ : Scope} {me : Thread} {w w' : World} {c c' : Course}
variable {cell : Nat} {cells : List Nat} {bag : String} {ds : List Diagnostic}

/-! ### Settled diagnostics -/

/-- The diagnostic has a result, or checks a reference that awaits a binder of the thread `me`. -/
def World.Settled (p : Program) (me : Thread) (w : World) (cell : Nat) : Prop :=
  (∃ o, w.result? cell = some o) ∨ w.Undecided p me cell

theorem World.Settled.later (h : w.Settled p me cell) (hl : w.Later w') :
    w'.Settled p me cell := by
  rcases h with ⟨o, ho⟩ | hu
  · exact .inl ⟨o, hl.result? ho⟩
  · exact .inr (hu.later hl)

/-- What is settled has the same result from then on, or none. -/
theorem World.Settled.result?_eq (h : w.Settled p me cell) (hl : w.Later w') {t : Thread}
    (hg : w.Grounded p t) (hg' : w'.Grounded p t) : w'.result? cell = w.result? cell := by
  rcases h with ⟨o, ho⟩ | hu
  · rw [ho, hl.result? ho]
  · rw [hu.result?_eq_none hg, (hu.later hl).result?_eq_none hg']

/-- The diagnostics are known or check references between entities with binders. -/
def World.Sourced (p : Program) (w : World) (cells : List Nat) : Prop :=
  ∀ cell ∈ cells, ∃ d ∈ w.cells[cell]?, d.Sourced p

instance (p : Program) (w : World) (cells : List Nat) : Decidable (w.Sourced p cells) :=
  inferInstanceAs (Decidable (∀ cell ∈ cells, ∃ d ∈ w.cells[cell]?, d.Sourced p))

theorem World.Sourced.later (h : w.Sourced p cells) (hl : w.Later w') : w'.Sourced p cells := by
  intro cell hm
  obtain ⟨d, hd, hsrc⟩ := h cell hm
  obtain ⟨d', hd', hlater⟩ := hl.cells cell d hd
  exact ⟨d', hd', hsrc.later hlater⟩

/-! ### Walks -/

/-- A resolution settles its diagnostic, and answers the result that it has then. -/
theorem settled_of_resolve? (hlaw : LawfulRunner p run) {d : Cell}
    (hc : c.now.cells[cell]? = some d) (hd : d.Sourced p) (hg : c.now.Grounded p at_.thread)
    (hg' : c'.now.Grounded p at_.thread) (halone : ∀ r, c.now.Alone at_.thread r)
    {o : Option (Shared Finding)} (h : resolve? p run at_ cell c = .ok o c') :
    c'.now.result? cell = o ∧ c'.now.Settled p at_.thread cell := by
  cases o with
  | some o =>
    have ho := result?_of_resolve? hlaw hg.sound hg.hosts h
    exact ⟨ho, .inl ⟨o, ho⟩⟩
  | none =>
    have hu := undecided_of_resolve? hlaw hc hd hg.sound hg.hosts halone h
    exact ⟨hu.result?_eq_none hg', .inr hu⟩

/-- A walk settles each diagnostic, and finds what they all have to report when it ends. -/
theorem settled_of_resolveEach (hp : p.Sourced) (hlaw : LawfulRunner p run)
    (hground : GroundedRunner p run) (hsrc : c.now.Sourced p cells)
    (hg : c.now.Grounded p at_.thread) (halone : ∀ r, c.now.Alone at_.thread r)
    (h : resolveEach p run at_ cells c = .ok ds c') :
    ds = c'.now.published cells ∧ ∀ cell ∈ cells, c'.now.Settled p at_.thread cell := by
  induction cells generalizing c ds with
  | nil =>
    cases h
    exact ⟨rfl, by simp⟩
  | cons cell cells ih =>
    obtain ⟨o, c₁, rest, hresolve, hrest, rfl⟩ := resolveEach_cons_eq_ok h
    have hpass := (lawful_resolve? hlaw cell).ok hg.sound hg.hosts hresolve
    have hg₁ : c₁.now.Grounded p at_.thread := by
      have hkeeps : Keeps (World.Grounded p at_.thread) (resolve? p run at_ cell) :=
        (groundedness hp hlaw hground at_).resolve? cell
      exact Act.course_of_ok hresolve ▸ (hkeeps c hg).now hg
    have hpass₁ := (lawful_resolveEach hlaw cells).ok hg₁.sound hg₁.hosts hrest
    have hg' : c'.now.Grounded p at_.thread := by
      have hkeeps : Keeps (World.Grounded p at_.thread) (resolveEach p run at_ cells) :=
        (groundedness hp hlaw hground at_).resolveEach cells
      exact Act.course_of_ok hrest ▸ (hkeeps c₁ hg₁).now hg₁
    obtain ⟨d, hd, hdsrc⟩ := hsrc cell List.mem_cons_self
    obtain ⟨hanswer, hsettled⟩ := settled_of_resolve? hlaw hd hdsrc hg hg₁ halone hresolve
    have hsrc₁ : c₁.now.Sourced p cells :=
      World.Sourced.later (fun i hi => hsrc i (List.mem_cons_of_mem _ hi)) hpass.later
    obtain ⟨rfl, hall⟩ := ih hsrc₁ hg₁ (fun r => (halone r).later hpass.later) hrest
    constructor
    · -- whatever runs after its turn, the diagnostic has the result that was answered
      rw [World.published_cons, World.report?, hsettled.result?_eq hpass₁.later hg₁ hg', hanswer]
    · intro i hi
      rcases List.mem_cons.mp hi with rfl | hi
      · exact hsettled.later hpass₁.later
      · exact hall i hi

/-! ### Reports -/

/-- What there is to say when a walk over a bag, from the world `w`, has returned `ds`. -/
structure Collects (p : Program) (bag : String) (w : World) (ds : List Diagnostic)
    (c' : Course) : Prop where
  /-- The report is the stable sort of what the entries there were have to report now. -/
  returned : StablySorted Diagnostic.bytewise (c'.now.published (w.bags bag)) ds
  /-- What is still pending of them waits for an entity that this thread is completing. -/
  pending : ∀ cell ∈ w.bags bag, c'.now.isResolved cell = false →
    ∃ rule candidate ctx opts slot calls,
      c'.now.cells[cell]? = some (.deferred (.check rule candidate ctx opts) slot calls) ∧
        ∃ e ∈ candidate :: p.chain ctx.containing,
          (c'.now.bindings e).completion = .inProgress mainThread
  /-- What was pushed meanwhile stands behind them. -/
  pushed : ∃ more, c'.now.bags bag = w.bags bag ++ more
  /-- Nothing is removed from any bag at any moment. -/
  kept : ∀ v ∈ c'.worlds, ∀ b, v.bags b <+: c'.now.bags b

theorem World.result?_eq_none_of_pending (h : w.isResolved cell = false) :
    w.result? cell = none := by
  unfold World.isResolved at h
  unfold World.result?
  cases hc : w.cells[cell]? with
  | none => rfl
  | some d =>
    rw [hc] at h
    exact Option.not_isSome_iff_eq_none.mp (by simpa [Cell.isResolved] using h)

/-- **A report agrees with the diagnostics.** At each moment of a session on one thread, whatever it
is nested in, a walk over a bag of known diagnostics and of checks of references between entities
with binders returns, sorted, what the entries have to report when it returns; those that are
pending then wait for an entity in completion here; and the bag keeps its entries, before those that
were pushed meanwhile. -/
theorem collect_agrees (hp : p.Sourced) {depth within : Nat} {steps : List Step}
    (hw : w ∈ p.moments depth steps) (hmain : at_.thread = mainThread)
    (hentries : w.Sourced p (w.bags bag))
    (h : collect p (performAll p within) at_ bag ⟨w, []⟩ = .ok ds c')
    (hone : c'.now.nextThread = mainThread + 1) : Collects p bag w ds c' := by
  have hg : w.Grounded p at_.thread := hmain ▸ grounded_of_mem_moments hp hw
  have hpass := (lawful_collect (lawful_performAll p within) bag).ok (c := ⟨w, []⟩) hg.sound
    hg.hosts h
  have hthread : w.nextThread = mainThread + 1 := by
    have hle : w.nextThread ≤ c'.now.nextThread := hpass.later.nextThread
    exact Nat.le_antisymm (hone ▸ hle) (hmain ▸ hg.hosts.2)
  have halone : ∀ r, w.Alone at_.thread r := fun r => hmain ▸ hg.sound.alone hthread
  obtain ⟨found, hfound, rfl⟩ := collect_eq_ok h
  obtain ⟨rfl, hsettled⟩ := settled_of_resolveEach hp (lawful_performAll p within)
    (grounded_performAll hp within) (c := ⟨w, []⟩) hentries hg halone hfound
  refine ⟨Diagnostic.stablySorted_inReportOrder _, fun cell hm hpending => ?_, ?_, ?_⟩
  · rcases hsettled cell hm with ⟨o, ho⟩ | ⟨rule, candidate, ctx, opts, slot, calls, hc, -, hawait⟩
    · rw [World.result?_eq_none_of_pending hpending] at ho
      cases ho
    · obtain ⟨e, he, howned⟩ := hawait.owned
      exact ⟨rule, candidate, ctx, opts, slot, calls, hc, e, he, hmain ▸ howned⟩
  · obtain ⟨more, hmore⟩ := hpass.later.bags bag
    exact ⟨more, hmore.symm⟩
  · have horderly : Orderly p at_.thread (collect p (performAll p within) at_ bag) :=
      (orderliness (orderly_performAll p within) at_).collect bag
    have hkept := horderly.kept ⟨w, []⟩ hg.sound hg.hosts fun v hv => by
      rw [List.mem_singleton.mp hv]
      exact .refl w
    rw [Act.course_of_ok h] at hkept
    exact fun v hv b => (hkept v hv).bags b

/-- Two old methods. Completing the second one reports something else. -/
def reporting : Program where
  entities :=
    [⟨0, "Outer", .type, none, .plain, .source false false .plain⟩,
      ⟨1, "Old", .method, none, ⟨some .plain, false⟩, .source false false .plain⟩,
      ⟨2, "Older", .method, none, ⟨some .plain, false⟩,
        .source false false ⟨[.guarded (.pushKnown (Walks.reportAt 7) "uses")], 0⟩⟩]

/-- Both are used, the first one inside the type, and then the type is completed. -/
def reportingSteps : List Step :=
  [.guarded (.pushKnown (Walks.reportAt 4) "uses"),
    .guarded (.recordReference 1 ⟨some 0, .empty, ⟨0, ⟨0, 1⟩⟩⟩ .standard "uses"),
    .guarded (.recordReference 2 ⟨none, .empty, ⟨0, ⟨2, 3⟩⟩⟩ .standard "uses"),
    .guarded (.force 0)]

/-- While the type is being completed, the use inside it is left pending, and completing the second
method puts one more entry behind the three. -/
theorem collect_agrees_while_binding :
    ∃ w c' ds, reporting.Sourced ∧ w ∈ reporting.moments 3 reportingSteps ∧
      w.Sourced reporting (w.bags "uses") ∧
      collect reporting (performAll reporting 2) ⟨mainThread, []⟩ "uses" ⟨w, []⟩ = .ok ds c' ∧
      c'.now.nextThread = mainThread + 1 ∧ ds.map (·.primary.range.start) = [2, 4] ∧
      (c'.now.bags "uses").map c'.now.isResolved = [true, false, true, true] ∧
      Collects reporting "uses" w ds c' := by
  have h : ((reporting.moments 3 reportingSteps)[2]?.map fun w =>
      (decide (w.Sourced reporting (w.bags "uses")),
        match collect reporting (performAll reporting 2) ⟨mainThread, []⟩ "uses" ⟨w, []⟩ with
        | .ok ds c' => some (c'.now.nextThread, ds.map (·.primary.range.start),
            (c'.now.bags "uses").map c'.now.isResolved)
        | .error _ _ => none)) =
      some (true, some (mainThread + 1, [2, 4], [true, false, true, true])) := by
    cbv
  obtain ⟨w, hw, hv⟩ := Option.map_eq_some_iff.mp h
  obtain ⟨hsrc, hres⟩ := Prod.mk.inj hv
  have hp : reporting.Sourced := by decide
  have hmem := List.mem_of_getElem? hw
  have hentries := of_decide_eq_true hsrc
  cases hc : collect reporting (performAll reporting 2) ⟨mainThread, []⟩ "uses" ⟨w, []⟩ with
  | error x c' =>
    rw [hc] at hres
    cases hres
  | ok ds c' =>
    rw [hc] at hres
    obtain ⟨hone, hrest⟩ := Prod.mk.inj (Option.some.inj hres)
    obtain ⟨hds, hresolved⟩ := Prod.mk.inj hrest
    exact ⟨w, c', ds, hp, hmem, hentries, hc, hone, hds, hresolved,
      collect_agrees hp hmem rfl hentries hc hone⟩

end Session
end Deferral
