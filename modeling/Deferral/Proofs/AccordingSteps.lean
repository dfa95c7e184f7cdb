/-
# Steps of sessions side by side

What was decided when a reference was recorded stays decided. So the check that another session
makes instead has nothing to force when it is resolved, and comes to the same; and a check that
comes to nothing adds nothing to a report. Every other step does the same in both sessions, and
walks over bags report the same diagnostics in the same order.

Key definitions: `Session.SameValue`, `Session.SameReport`.
Key theorems: `Session.resolve?_of_decided`, `Session.accords_resolve?`, `Session.accords_collect`,
`Session.accords_answer`.
-/
import Deferral.Proofs.Accord
import Deferral.Proofs.ShortPursuit

namespace Deferral
namespace Session

variable {p p' : Program} {fresh : String → Prop} {run run' : Runner} {at_ : Scope} {t : Thread}
variable {π π₁ : List Link} {c c' c₁ c₁' : Course} {w w' w₁ w₁' : World}
variable {candidate : Nat} {ctx : Context} {opts : Options}

/-! ### What is decided already -/

section

variable (run : Runner) (at_ : Scope)

/-- What a decision comes to. -/
def Decision.finding (p : Program) (w : World) (candidate : Nat) (ctx : Context) (opts : Options) :
    Decision → Finding
  | .reportable => .report (diagnose p w candidate ctx opts)
  | .inapplicable => .void

/-- A decided reference is pursued without a round of forcing. -/
theorem pursueCheck_of_decided {rule : CheckRule} {d : Decision}
    (h : (rule.standing opts (c.now.view p at_.thread) (p.reference candidate ctx)).decision? =
      some d) : pursueCheck p run at_ rule candidate ctx opts c = .ok (some (d, 0)) c := by
  have hp : pursue (host p run at_ (p.entity candidate).name) (rule.standing opts)
      (p.reference candidate ctx) c = .ok ⟨.decided d, 0⟩ c := pursueFrom_of_decided h
  unfold pursueCheck
  rw [Act.bind_of_ok hp]
  rfl

theorem World.Traced.view (h : w.Traced w') : w'.view p t = w.view p t :=
  view_congr h.bindings h.demands

/-- A decided deprecation check leaves nothing but a trace. -/
theorem decideDeprecation_of_decided {d : Decision}
    (h : (p.standingIn c.now candidate ctx opts).decision? = some d) :
    ∃ c₁, decideDeprecation p run at_ candidate ctx opts c =
        .ok (some (Decision.finding p c.now candidate ctx opts d)) c₁ ∧
      c.Through c.now.Traced c₁ := by
  obtain ⟨c₂, h₂, ht₂⟩ := emit_traced at_ ⟨.span, "lazy_diag.resolve_deprecation",
    [("entity", .text (p.entity candidate).name), ("id", .number (p.entity candidate).id)]⟩ c
  obtain ⟨c₃, h₃, ht₃⟩ := emit_traced at_
    ⟨.record, "lazy_diag.resolve_deprecation", [("rounds", .number 0)]⟩ c₂
  obtain ⟨c₄, h₄, ht₄⟩ := emit_traced at_ ⟨.exit, "lazy_diag.resolve_deprecation", []⟩ c₃
  have hview : c₂.now.view p at_.thread = c.now.view p at_.thread := (ht₂.now (.refl _)).view
  have hp : pursueCheck p run at_ .deprecation candidate ctx opts c₂ = .ok (some (d, 0)) c₂ := by
    refine pursueCheck_of_decided run at_ ?_
    rw [hview]
    exact h
  have htraced : c.now.Traced c₃.now := (ht₂.traced ht₃).now (.refl _)
  have hdiagnose : diagnose p c₃.now candidate ctx opts = diagnose p c.now candidate ctx opts :=
    htraced.toTallies.diagnose (.refl p) candidate ctx opts
  refine ⟨c₄, inSpan_of_ok h₂ ?_ h₄, (ht₂.traced ht₃).traced ht₄⟩
  rw [Act.bind_of_ok hp]
  refine (Act.bind_of_ok h₃).trans ?_
  cases d with
  | inapplicable => rfl
  | reportable =>
    rw [Decision.finding, ← hdiagnose]
    rfl

/-- A finding is memoized where nothing has been, and nothing else changes that is seen. -/
theorem keepFinding_of_empty {cell calls : Nat} {comp : Computation} {slot : WriteOnce Finding}
    (hc : c.now.cells[cell]? = some (.deferred comp slot calls)) (hst : slot.stored = none)
    (f : Finding) :
    ∃ o c₁ slot', keepFinding at_ cell (some f) c = .ok (some o) c₁ ∧ o.value = f ∧
      c.Through c.now.Aside c₁ ∧ slot'.stored = some o ∧
      c₁.now.cells = c.now.cells.set cell (.deferred comp slot' calls) := by
  have hmemoize := memoize_of_deferred (c := c.making f) hc (objectAt c.now.nextKey f).1
  have hoffer : slot.offer (objectAt c.now.nextKey f).1 =
      (((objectAt c.now.nextKey f).1, true),
        { slot with stored := some (objectAt c.now.nextKey f).1 }) := by
    unfold WriteOnce.offer
    rw [hst]
  rw [hoffer] at hmemoize
  refine ⟨_, _, _, (Act.bind_of_ok (objectFor_eq f c)).trans (Act.bind_of_ok hmemoize),
    objectAt_value _ f, ?_, rfl, rfl⟩
  refine Course.Through.trans (.goOn ?_) (.goOn ?_)
  · exact ⟨⟨rfl, rfl, rfl⟩, rfl, rfl⟩
  · exact ⟨⟨rfl, rfl, rfl⟩, rfl, rfl⟩

/-- Resolving a decided check changes nothing else that is seen of the world. -/
theorem resolve?_of_decided {cell calls : Nat} {slot : WriteOnce Finding} {d : Decision}
    (hc : c.now.cells[cell]? = some (.deferred (.check .deprecation candidate ctx opts) slot calls))
    (hst : slot.stored = none) (hd : (p.standingIn c.now candidate ctx opts).decision? = some d) :
    ∃ o c₁ slot', resolve? p run at_ cell c = .ok (some o) c₁ ∧
      o.value = Decision.finding p c.now candidate ctx opts d ∧ c.Through c.now.Aside c₁ ∧
      slot'.stored = some o ∧
      c₁.now.cells = c.now.cells.set cell
        (.deferred (.check .deprecation candidate ctx opts) slot' (calls + 1)) := by
  have hcount :
      (c.counting cell (.check .deprecation candidate ctx opts) slot calls).now.cells[cell]? =
        some (.deferred (.check .deprecation candidate ctx opts) slot (calls + 1)) := by
    obtain ⟨hlt, -⟩ := List.getElem?_eq_some_iff.mp hc
    exact List.getElem?_set_self hlt
  have hcounted :
      c.now.Aside (c.counting cell (.check .deprecation candidate ctx opts) slot calls).now :=
    ⟨⟨rfl, rfl, rfl⟩, rfl, rfl⟩
  have hstep : c.Through c.now.Aside
      (c.counting cell (.check .deprecation candidate ctx opts) slot calls) := .goOn hcounted
  obtain ⟨c₂, hdecide, htraced⟩ := decideDeprecation_of_decided run at_
    (c := c.counting cell (.check .deprecation candidate ctx opts) slot calls) hd
  have htraced₂ := htraced.now (.refl _)
  have haside := hcounted.trans htraced₂.toAside
  obtain ⟨o, c₁, slot', hkeep, hvalue, hthrough, hslot, hcells⟩ :=
    keepFinding_of_empty at_ (htraced₂.cells ▸ hcount) hst
      (Decision.finding p c.now candidate ctx opts d)
  refine ⟨o, c₁, slot', ?_, hvalue, ?_, hslot, ?_⟩
  · rw [resolve?_of_empty hc hst]
    exact (Act.bind_of_ok hdecide).trans hkeep
  · refine (hstep.trans (htraced.imp fun w hw => ?_)).trans (hthrough.imp fun w hw => ?_)
    · exact hcounted.trans hw.toAside
    · exact haside.trans hw
  · rw [hcells, htraced₂.cells]
    exact List.set_set _

end

/-! ### Diagnostics -/

/-- The findings have the same value. -/
abbrev SameValue (_ : List Link) (o o' : Option (Shared Finding)) : Prop :=
  o'.map (·.value) = o.map (·.value)

theorem standingIn_matched (ha : p.Alike p') (hm : Matched p fresh π w w') :
    p'.standingIn w' candidate ctx opts = p.standingIn w candidate ctx opts := by
  unfold Program.standingIn
  rw [hm.tallies.view ha, ha.reference]

theorem finding_matched (ha : p.Alike p') (hm : Matched p fresh π w w') (d : Decision) :
    Decision.finding p' w' candidate ctx opts d = Decision.finding p w candidate ctx opts d := by
  cases d with
  | inapplicable => rfl
  | reportable =>
    unfold Decision.finding
    rw [hm.tallies.diagnose ha]

theorem extends_of_bindings (hp : p.Sourced) (h : w₁.bindings = w.bindings) :
    (w.view p t).Extends (w₁.view p t) :=
  extends_of_complete hp fun _ _ hd => h ▸ hd

section

variable (run' : Runner) (at_ : Scope)

/-- A check that the first session has decided is resolved in the second alone. -/
theorem Joined.decide (ha : p.Alike p') (hj : Joined p fresh π c c') {i' : Nat}
    {l : Link} (hl : π[i']? = some l) {slot : WriteOnce Finding} {calls : Nat} {d : Decision}
    (hc : c'.now.cells[i']? = some (.deferred (.check .deprecation candidate ctx opts) slot calls))
    (hd : (p.standingIn c.now candidate ctx opts).decision? = some d)
    (hslot : ∀ o, slot.stored = some o → o.value = Decision.finding p c.now candidate ctx opts d)
    (hholds : ∀ {w' : World} {slot : WriteOnce Finding} {calls : Nat},
      w'.cells[i']? = some (.deferred (.check .deprecation candidate ctx opts) slot calls) →
        (∀ o, slot.stored = some o → o.value = Decision.finding p c.now candidate ctx opts d) →
          l.Holds p fresh c.now w' i') :
    ∃ o c₁', resolve? p' run' at_ i' c' = .ok (some o) c₁' ∧
      o.value = Decision.finding p c.now candidate ctx opts d ∧ Joined p fresh π c c₁' := by
  cases hst : slot.stored with
  | some o => exact ⟨o, c', resolve?_of_result hc hst, hslot o hst, hj⟩
  | none =>
    have hd' : (p'.standingIn c'.now candidate ctx opts).decision? = some d := by
      rw [standingIn_matched ha hj.matched]
      exact hd
    obtain ⟨o, c₁', slot', hresolve, hvalue, hthrough, hslot', hcells⟩ :=
      resolve?_of_decided run' at_ hc hst hd'
    rw [finding_matched ha hj.matched] at hvalue
    have haside := hthrough.now ⟨⟨rfl, rfl, rfl⟩, rfl, rfl⟩
    have hcell : c₁'.now.cells[i']? =
        some (.deferred (.check .deprecation candidate ctx opts) slot' (calls + 1)) := by
      obtain ⟨hlt, -⟩ := List.getElem?_eq_some_iff.mp hc
      rw [hcells, List.getElem?_set_self hlt]
    refine ⟨o, c₁', hresolve, hvalue, hj.right (hthrough.imp fun _ hw => hw.toTallies) ?_⟩
    refine hj.matched.setCell (hj.matched.tallies.trans haside.toTallies) (.refl _) hl
      (fun _ _ => rfl) hcells (hholds hcell ?_) rfl haside.names rfl haside.bags
    intro o' ho'
    rw [hslot'] at ho'
    cases ho'
    exact hvalue

/-- A check of no consequence is resolved to nothing in the second session alone. -/
theorem Joined.silent (ha : p.Alike p') (hj : Joined p fresh π c c') {i' : Nat}
    (hl : π[i']? = some (.silent candidate ctx opts)) :
    ∃ o c₁', resolve? p' run' at_ i' c' = .ok (some o) c₁' ∧ o.value = .void ∧
      Joined p fresh π c c₁' := by
  obtain ⟨slot, calls, hc, hstanding, hslot⟩ := hj.matched.links i' _ hl
  have hd : (p.standingIn c.now candidate ctx opts).decision? = some .inapplicable := by
    rw [hstanding]
    rfl
  exact hj.decide run' at_ ha hl hc hd hslot fun hc' hslot' => ⟨_, _, hc', hstanding, hslot'⟩

end

section

variable {o o' : Shared Finding} {slot slot' : WriteOnce Finding}

/-- What is offered to two slots that hold the same value, or nothing, has the same fate. -/
theorem offer_congr (hs : slot'.stored.map (·.value) = slot.stored.map (·.value))
    (ho : o'.value = o.value) :
    (slot'.offer o').1.1.value = (slot.offer o).1.1.value ∧
      (slot'.offer o').1.2 = (slot.offer o).1.2 ∧
      (slot'.offer o').2.stored.map (·.value) = (slot.offer o).2.stored.map (·.value) := by
  unfold WriteOnce.offer
  cases hst : slot.stored with
  | none =>
    rw [hst, Option.map_none, Option.map_eq_none_iff] at hs
    simp [hs, ho]
  | some held =>
    rw [hst, Option.map_some, Option.map_eq_some_iff] at hs
    obtain ⟨held', hst', hvalue⟩ := hs
    simp [hst', hvalue]

end

/-- Objects with the same value are memoized alike. -/
theorem Joined.memoize (hj : Joined p fresh π c c') {i i' : Nat} {comp comp' : Computation}
    (hl : π[i']? = some (.deferred i comp comp')) {o o' : Shared Finding}
    (ho : o'.value = o.value) :
    ∃ held held' won c₁ c₁', memoize i o c = .ok (held, won) c₁ ∧
      memoize i' o' c' = .ok (held', won) c₁' ∧ held'.value = held.value ∧
      Joined p fresh π c₁ c₁' := by
  obtain ⟨hcomp, slot, slot', calls, hc, hc', hvalue⟩ := hj.matched.links i' _ hl
  obtain ⟨hheld, hwon, hstored⟩ := offer_congr hvalue ho
  have hm' := memoize_of_deferred hc' o'
  rw [show (slot'.offer o').1 = ((slot'.offer o').1.1, (slot.offer o).1.2) from
    Prod.ext rfl hwon] at hm'
  refine ⟨_, _, _, _, _, memoize_of_deferred hc o, hm', hheld, hj.goOn ?_⟩
  obtain ⟨hlt, -⟩ := List.getElem?_eq_some_iff.mp hc
  obtain ⟨hlt', -⟩ := List.getElem?_eq_some_iff.mp hc'
  refine hj.matched.setCell ⟨hj.matched.tallies.bindings, hj.matched.tallies.demands,
    hj.matched.tallies.collected⟩ (.refl _) hl (fun j hne => ?_) rfl ?_ rfl rfl rfl rfl
  · exact List.getElem?_set_ne fun hij => hne (congrArg some hij)
  · exact ⟨hcomp, _, _, calls, List.getElem?_set_self hlt, List.getElem?_set_self hlt', hstored⟩

/-- New keys are of no consequence. -/
theorem Joined.making (hp : p.Sourced) (hj : Joined p fresh π c c') (f : Finding) :
    Joined p fresh π (c.making f) (c'.making f) :=
  hj.goOn (hj.matched.quiet ⟨hj.matched.tallies.bindings, hj.matched.tallies.demands,
    hj.matched.tallies.collected⟩ (extends_of_bindings hp rfl) rfl rfl rfl rfl rfl rfl)

/-- What a computation has found is memoized alike. -/
theorem outcome_keepFinding (hp : p.Sourced) (hj : Joined p fresh π c c') {i i' : Nat}
    {comp comp' : Computation} (hl : π[i']? = some (.deferred i comp comp')) (f : Option Finding) :
    Outcome p fresh SameValue π (keepFinding at_ i f c) (keepFinding at_ i' f c') := by
  cases f with
  | none =>
    obtain ⟨c₁, c₁', h₁, h₁', hj₁⟩ := joined_emit hj at_
      ⟨.event, "diagnostic undecided on this thread, not memoizing", []⟩
    rw [keepFinding, keepFinding, Act.bind_of_ok h₁, Act.bind_of_ok h₁']
    exact hj₁.ok rfl
  | some f =>
    have hvalues : (objectAt c'.now.nextKey f).1.value = (objectAt c.now.nextKey f).1.value := by
      rw [objectAt_value, objectAt_value]
    obtain ⟨held, held', won, c₁, c₁', hm, hm', hheld, hj₁⟩ :=
      (hj.making hp f).memoize hl hvalues
    rw [keepFinding_of_offer hm, keepFinding_of_offer hm']
    have hanswer : SameValue π (some held) (some held') := congrArg some hheld
    cases won with
    | true => exact hj₁.ok hanswer
    | false =>
      let discarded : TraceEntry :=
        ⟨.event, "diagnostic resolved concurrently, discarding local result", []⟩
      obtain ⟨c₂, c₂', h₂, h₂', hj₂⟩ := joined_emit hj₁ at_ discarded
      show Outcome p fresh SameValue π
        ((emit at_ discarded >>= fun _ => pure (some held) : Act (Option (Shared Finding))) c₁)
        ((emit at_ discarded >>= fun _ => pure (some held') : Act (Option (Shared Finding))) c₁')
      rw [Act.bind_of_ok h₂, Act.bind_of_ok h₂']
      exact hj₂.ok hanswer

theorem accords_compute (hp : p.Sourced) (hpp : p.Postpones fresh p')
    (hrun : AccordingRunner p fresh run run') (call : Nat) {comp comp' : Computation}
    (h : comp.Postponed fresh comp') :
    Accords p fresh at_.thread π Same (compute p run at_ call comp)
      (compute p' run' at_ call comp') := by
  cases h with
  | check rule candidate ctx opts =>
    cases rule with
    | deprecation => exact (according hp hpp hrun at_).decideDeprecation candidate ctx opts π
    | experimental => exact (according hp hpp hrun at_).decideExperimental candidate ctx opts π
  | constant f => exact .pure fun _ _ => rfl
  | @scripted name plan during during' nested =>
    have hconclude : ∀ π,
        Accords p fresh at_.thread π Same (plan.conclude call) (plan.conclude call) := by
      intro π
      unfold Plan.conclude
      split
      · exact .throw _
      · split
        · exact .pure fun _ _ => rfl
        · exact .pure fun _ _ => rfl
    rw [compute_scripted, compute_scripted]
    dsimp only
    split
    · exact (hrun.accords (at_.inside name) nested π).bind (fun _ => (hconclude π).lawful)
        fun π₁ _ _ _ _ => hconclude π₁
    · exact hconclude π

/-- A call of a computation is counted in both sessions. -/
theorem Joined.counting (hj : Joined p fresh π c c') {i i' : Nat} {comp comp' : Computation}
    (hl : π[i']? = some (.deferred i comp comp')) {slot slot' : WriteOnce Finding} {calls : Nat}
    (hc : c.now.cells[i]? = some (.deferred comp slot calls))
    (hc' : c'.now.cells[i']? = some (.deferred comp' slot' calls))
    (hcomp : comp.Postponed fresh comp')
    (hvalue : slot'.stored.map (·.value) = slot.stored.map (·.value)) :
    Joined p fresh π (c.counting i comp slot calls) (c'.counting i' comp' slot' calls) := by
  obtain ⟨hlt, -⟩ := List.getElem?_eq_some_iff.mp hc
  obtain ⟨hlt', -⟩ := List.getElem?_eq_some_iff.mp hc'
  have htallies := hj.matched.tallies
  refine hj.goOn (hj.matched.setCell ⟨htallies.bindings, htallies.demands, htallies.collected⟩
    (.refl _) hl (fun j hne => ?_) rfl ?_ rfl rfl rfl rfl)
  · exact List.getElem?_set_ne fun hij => hne (congrArg some hij)
  · exact ⟨hcomp, slot, slot', calls + 1, List.getElem?_set_self hlt,
      List.getElem?_set_self hlt', hvalue⟩

/-- A diagnostic that both sessions compute is resolved alike. -/
theorem outcome_resolve?_of_deferred (hp : p.Sourced) (hpp : p.Postpones fresh p')
    (hrun : AccordingRunner p fresh run run') (hs : c.now.Sound p) (ht : c.now.Hosts at_.thread)
    (hj : Joined p fresh π c c') {i i' : Nat} {comp comp' : Computation}
    (hl : π[i']? = some (.deferred i comp comp')) :
    Outcome p fresh SameValue π (resolve? p run at_ i c) (resolve? p' run' at_ i' c') := by
  obtain ⟨hcomp, slot, slot', calls, hc, hc', hvalue⟩ := hj.matched.links i' _ hl
  cases hst : slot.stored with
  | some o =>
    rw [hst, Option.map_some, Option.map_eq_some_iff] at hvalue
    obtain ⟨o', hst', hvalue⟩ := hvalue
    rw [resolve?_of_result hc (o := o) hst, resolve?_of_result hc' (o := o') hst']
    exact hj.ok (congrArg some hvalue)
  | none =>
    have hst' : slot'.stored = none := by
      rw [hst] at hvalue
      exact Option.map_eq_none_iff.mp hvalue
    rw [resolve?_of_empty hc hst, resolve?_of_empty hc' hst']
    have hpass : Passage p c (c.counting i comp slot calls) := passage_count hs hc
    have hcompute : Accords p fresh at_.thread π Same (compute p run at_ calls comp)
        (compute p' run' at_ calls comp') := accords_compute hp hpp hrun calls hcomp
    have hout := hcompute.run List.prefix_rfl (hpass.sound hs) (hpass.hosts ht)
      (hj.counting hl hc hc' hcomp hvalue)
    obtain ⟨π₁, f, f', c₁, c₁', h₁, hj₁, rfl, hr, hr'⟩ | ⟨π₁, x, c₁, c₁', h₁, hj₁, hr, hr'⟩ :=
      hout.ends
    · rw [Act.bind_of_ok hr, Act.bind_of_ok hr']
      exact (outcome_keepFinding hp hj₁ (getElem?_mono h₁ hl) f').widen h₁
    · rw [Act.bind_of_error hr, Act.bind_of_error hr']
      exact ⟨rfl, π₁, h₁, hj₁⟩

/-- Linked diagnostics are resolved alike. -/
theorem accords_resolve? (hp : p.Sourced) (hpp : p.Postpones fresh p')
    (hrun : AccordingRunner p fresh run run') {i i' : Nat} (hi : Linked π i i') :
    Accords p fresh at_.thread π SameValue (resolve? p run at_ i) (resolve? p' run' at_ i') where
  lawful := lawful_resolve? hrun.lawful i
  run {π₁} h₁ {c c'} hs ht hj := by
    obtain ⟨l, hl, hcell⟩ := hi.mono h₁
    cases l with
    | silent candidate ctx opts => cases hcell
    | deferred j comp comp' =>
      cases hcell
      exact outcome_resolve?_of_deferred hp hpp hrun hs ht hj hl
    | known j =>
      cases hcell
      obtain ⟨o, o', hc, hc', hvalue⟩ := hj.matched.links i' _ hl
      rw [resolve?_of_result hc rfl, resolve?_of_result hc' rfl]
      exact hj.ok (congrArg some hvalue)
    | decided j candidate ctx opts =>
      cases hcell
      obtain ⟨o, slot, calls, hc, hc', hstanding, hvalue, hslot⟩ := hj.matched.links i' _ hl
      have hd : (p.standingIn c.now candidate ctx opts).decision? = some .reportable := by
        rw [hstanding]
        rfl
      obtain ⟨o', c₁', hresolve, hvalue', hj₁⟩ := hj.decide run' at_ hpp.alike hl hc' hd
        (fun o' ho' => (hslot o' ho').trans hvalue) fun hc' hslot' =>
          ⟨o, _, _, hc, hc', hstanding, hvalue, fun o' ho' => (hslot' o' ho').trans hvalue.symm⟩
      rw [resolve?_of_result hc rfl, hresolve]
      exact hj₁.ok (congrArg some (hvalue'.trans hvalue.symm))

/-! ### Bags -/

/-- A walk over linked entries finds the same in both sessions. -/
theorem accords_resolveEach (hp : p.Sourced) (hpp : p.Postpones fresh p')
    (hrun : AccordingRunner p fresh run run') {is is' : List Nat} (hf : Follows π is is') :
    Accords p fresh at_.thread π Same (resolveEach p run at_ is) (resolveEach p' run' at_ is') := by
  have hlaw : ∀ (is : List Nat) (o : Option (Shared Finding)), Lawful p at_.thread (do
      let rest ← resolveEach p run at_ is
      return (o.bind (·.value.diagnostic?)).toList ++ rest) :=
    fun is o => (lawful_resolveEach hrun.lawful is).bind fun rest => .pure _
  induction hf with
  | nil => exact .pure fun _ _ => rfl
  | @paired i i' is is' hi hrest ih =>
    rw [resolveEach_cons, resolveEach_cons]
    refine (accords_resolve? hp hpp hrun hi).bind (hlaw is) fun π₁ h₁ o o' ho => ?_
    have hbind : o'.bind (·.value.diagnostic?) = o.bind (·.value.diagnostic?) := by
      have hmap : ∀ o : Option (Shared Finding),
          o.bind (·.value.diagnostic?) = (o.map (·.value)).bind Finding.diagnostic? := by
        intro o
        cases o with
        | none => rfl
        | some o => rfl
      rw [hmap, hmap, ho]
    refine (ih.mono h₁).bind (fun rest => .pure _) fun π₂ _ rest rest' hrest => ?_
    obtain rfl : rest' = rest := hrest
    rw [hbind]
    exact .pure fun _ _ => rfl
  | @silent i' candidate ctx opts is is' hi hrest ih =>
    refine ⟨lawful_resolveEach hrun.lawful is, fun {π₁} h₁ {c c'} hs ht hj => ?_⟩
    -- the second session resolves a check to nothing, and then both walk on
    obtain ⟨o, c₁', hresolve, hvoid, hj₁⟩ := hj.silent run' at_ hpp.alike
      (getElem?_mono h₁ hi)
    have hnone : (some o).bind (·.value.diagnostic?) = none := by
      rw [Option.bind_some, hvoid]
      rfl
    have hsame : resolveEach p' run' at_ (i' :: is') c' = resolveEach p' run' at_ is' c₁' := by
      rw [resolveEach_cons, Act.bind_of_ok hresolve, hnone, Option.toList_none]
      simp only [List.nil_append, Act.bind_pure]
    rw [hsame]
    exact ih.run h₁ hs ht hj₁

theorem accords_collect (hp : p.Sourced) (hpp : p.Postpones fresh p')
    (hrun : AccordingRunner p fresh run run') (bag : String) :
    Accords p fresh at_.thread π Same (collect p run at_ bag) (collect p' run' at_ bag) := by
  refine .look (lawful_collect hrun.lawful bag) fun π₁ _ c c' hs ht hj => ?_
  have heach : Accords p fresh at_.thread π₁ Same (resolveEach p run at_ (c.now.bags bag))
      (resolveEach p' run' at_ (c'.now.bags bag)) :=
    accords_resolveEach hp hpp hrun (hj.matched.bags bag)
  have hcollect := heach.bind (f := fun ds => (pure (Diagnostic.inReportOrder ds) : Act _))
    (g := fun ds => pure (Diagnostic.inReportOrder ds)) (S := Same) (fun _ => .pure _)
    fun _ _ ds ds' hds => .pure fun _ _ => congrArg Diagnostic.inReportOrder hds
  exact hcollect.run (List.prefix_refl π₁) hs ht hj

/-! ### Making diagnostics -/

theorem getElem?_addCell (w : World) (d : Cell) :
    (w.addCell d).cells[w.cells.length]? = some d := by
  simp [World.addCell]

theorem getElem?_addCell_lt (w : World) (d : Cell) :
    ∀ j < w.cells.length, (w.addCell d).cells[j]? = w.cells[j]? := by
  intro j hj
  simp [World.addCell, List.getElem?_append_left hj]

theorem linked_append {l : Link} {i : Nat} (hcell : l.cell? = some i) :
    Linked (π ++ [l]) i π.length := ⟨l, by simp, hcell⟩

/-- The worlds in which each session has made a diagnostic, which are linked. -/
theorem Matched.addCells (hp : p.Sourced) (h : Matched p fresh π w w') {d d' : Cell} {l : Link}
    (hcell : l.cell? = some w.cells.length)
    (hl : l.Holds p fresh (w.addCell d) (w'.addCell d') w'.cells.length) :
    Matched p fresh (π ++ [l]) (w.addCell d) (w'.addCell d') := by
  refine h.addCell ⟨h.tallies.bindings, h.tallies.demands, h.tallies.collected⟩
    (extends_of_bindings hp rfl) (getElem?_addCell_lt w d) rfl hl (fun j hj => ?_) rfl rfl rfl rfl
  rw [hcell] at hj
  exact Nat.le_of_eq (Option.some.inj hj)

theorem Matched.addDeferred (hp : p.Sourced) (h : Matched p fresh π w w')
    {comp comp' : Computation} (hcomp : comp.Postponed fresh comp') :
    Matched p fresh (π ++ [.deferred w.cells.length comp comp'])
      (w.addCell (.deferred comp .empty 0)) (w'.addCell (.deferred comp' .empty 0)) :=
  h.addCells hp rfl ⟨hcomp, .empty, .empty, 0, getElem?_addCell w _, getElem?_addCell w' _, rfl⟩

theorem Matched.addKnown (hp : p.Sourced) (h : Matched p fresh π w w') {o o' : Shared Finding}
    (ho : o'.value = o.value) :
    Matched p fresh (π ++ [.known w.cells.length]) (w.addCell (.known o))
      (w'.addCell (.known o')) :=
  h.addCells hp rfl ⟨o, o', getElem?_addCell w _, getElem?_addCell w' _, ho⟩

theorem accords_createDeferred (hp : p.Sourced) {comp comp' : Computation}
    (hcomp : comp.Postponed fresh comp') :
    Accords p fresh t π Linked (createDeferred comp) (createDeferred comp') where
  lawful := lawful_createDeferred comp
  run {π₁} _ {c c'} _ _ hj := by
    have hm := hj.matched.addDeferred hp hcomp
    have hlink : Linked (π₁ ++ [.deferred c.now.cells.length comp comp']) c.now.cells.length
        c'.now.cells.length := hj.matched.length ▸ linked_append rfl
    exact ⟨_, List.prefix_append _ _, hj.goOn hm, hlink⟩

theorem accords_createKnown (hp : p.Sourced) (d : Diagnostic) :
    Accords p fresh t π Linked (createKnown d) (createKnown d) where
  lawful := lawful_createKnown d
  run {π₁} _ {c c'} _ _ hj := by
    have hj₁ := hj.making hp (.report d)
    have hvalue : (objectAt c'.now.nextKey (.report d)).1.value =
        (objectAt c.now.nextKey (.report d)).1.value := by
      rw [objectAt_value, objectAt_value]
    have hm := hj₁.matched.addKnown hp hvalue
    have hlink : Linked (π₁ ++ [.known c.now.cells.length]) c.now.cells.length
        c'.now.cells.length := hj.matched.length ▸ linked_append rfl
    exact ⟨_, List.prefix_append _ _, hj₁.goOn hm, hlink⟩

theorem Matched.cell_of_linked (h : Matched p fresh π w w') {i i' : Nat} (hi : Linked π i i') :
    ∃ d, w.cells[i]? = some d :=
  ⟨_, List.getElem?_eq_getElem (h.lt_of_linked hi)⟩

theorem Matched.cell_of_linked' (h : Matched p fresh π w w') {i i' : Nat} (hi : Linked π i i') :
    ∃ d, w'.cells[i']? = some d := by
  obtain ⟨l, hl, -⟩ := hi
  obtain ⟨hlt, -⟩ := List.getElem?_eq_some_iff.mp hl
  exact ⟨_, List.getElem?_eq_getElem (h.length ▸ hlt)⟩

/-- Linked diagnostics are put into the bag. -/
theorem accords_push (bag : String) {i i' : Nat} (hi : Linked π i i') :
    Accords p fresh t π Same (modify fun w => w.pushCell bag i : Act Unit)
      (modify fun w => w.pushCell bag i') := by
  refine .change (lawful_push bag i) fun π₁ h₁ w w' hm => ?_
  exact hm.push bag (fun _ => rfl) (fun _ => rfl) (.paired (hi.mono h₁) .nil)
    ⟨hm.tallies.bindings, hm.tallies.demands, hm.tallies.collected⟩ (.refl _) rfl rfl rfl rfl

/-- The answers report the same, or nothing. -/
abbrev SameReport (_ : List Link) (a a' : Answer) : Prop := a'.reported? = a.reported?

/-- Neither answer reports anything. -/
theorem sameReport {a a' : Answer} (h : a.reported? = none) (h' : a'.reported? = none) :
    SameReport π a a' :=
  h'.trans h.symm

theorem reported?_ofFinding? (o : Option (Shared Finding)) :
    (Answer.ofFinding? o).reported? = none := by
  cases o with
  | none => rfl
  | some o => rfl

theorem accords_findCell {n : String} (hn : ¬ fresh n) :
    Accords p fresh t π Linked (findCell n) (findCell n) := by
  refine .look (lawful_findCell n) fun π₁ _ c c' _ _ hj => ?_
  have hnames := hj.matched.names n hn
  revert hnames
  cases c.now.names.lookup n with
  | none =>
    cases c'.now.names.lookup n with
    | none => exact fun _ => ⟨rfl, π₁, List.prefix_rfl, hj⟩
    | some i' => exact fun h => nomatch h
  | some i =>
    cases c'.now.names.lookup n with
    | none => exact fun h => nomatch h
    | some i' =>
      rintro ⟨⟩
      exact hj.ok ‹_›

theorem accords_createNamed {make make' : Act Nat} (n : String)
    (h : Accords p fresh t π Linked make make') :
    Accords p fresh t π SameReport (createNamed n make) (createNamed n make') := by
  refine h.bind (fun i => (lawful_addName n i).bind fun _ => .pure _) fun π₁ _ i i' hi => ?_
  have hname : Accords p fresh t π₁ Same (modify fun w => w.addName n i : Act Unit)
      (modify fun w => w.addName n i') :=
    .change (lawful_addName n i) fun π₂ h₂ w w' hm => hm.addName n (hi.mono h₂)
  exact hname.bind (fun _ => .pure _) fun _ _ _ _ _ => .pure fun _ _ => sameReport rfl rfl

theorem accords_bagSize (bag : String) :
    Accords p fresh t π SameReport (bagSize bag) (bagSize bag) :=
  .answer fun _ _ _ _ => sameReport rfl rfl

/-- A reference that both sessions record as it stands is recorded alike. -/
theorem accords_recordReference (hp : p.Sourced) (ha : p.Alike p') (candidate : Nat)
    (ctx : Context) (opts : Options) (bag : String) :
    Accords p fresh at_.thread π Same (recordReference p at_ candidate ctx opts bag)
      (recordReference p' at_ candidate ctx opts bag) := by
  refine .look (lawful_recordReference candidate ctx opts bag) fun π₁ _ c c' hs ht hj => ?_
  rw [hj.matched.tallies.view ha, ha.reference, hj.matched.tallies.diagnose ha]
  have hcreate : Accords p fresh at_.thread π₁ Linked
      (createDeferred (.check .deprecation candidate ctx opts))
      (createDeferred (.check .deprecation candidate ctx opts)) :=
    accords_createDeferred hp (.check .deprecation candidate ctx opts)
  have hcheck := hcreate.bind (fun i => lawful_push bag i) fun _ _ _ _ hi => accords_push bag hi
  cases deprecationStanding opts (c.now.view p at_.thread) (p.reference candidate ctx) with
  | inapplicable => exact hj.ok rfl
  | reportable =>
    have hcreate : Accords p fresh at_.thread π₁ Linked
        (createKnown (diagnose p c.now candidate ctx opts))
        (createKnown (diagnose p c.now candidate ctx opts)) := accords_createKnown hp _
    have hknown := hcreate.bind (fun i => lawful_push bag i) fun _ _ _ _ hi => accords_push bag hi
    exact hknown.run (List.prefix_refl π₁) hs ht hj
  | pendingCompletion => exact hcheck.run (List.prefix_refl π₁) hs ht hj
  | pendingAmbiguous => exact hcheck.run (List.prefix_refl π₁) hs ht hj

/-! ### Steps -/

/-- What breaks off is caught alike. -/
theorem accords_guarded {x y : Act Answer} (h : Accords p fresh t π SameReport x y) :
    Accords p fresh t π SameReport (guarded x) (guarded y) where
  lawful := lawful_guarded h.lawful
  run {π₁} h₁ {c c'} hs ht hj := by
    unfold guarded
    obtain ⟨π₂, a, b, c₁, c₁', h₂, hj₂, hR, hc, hc'⟩ | ⟨π₂, i, c₁, c₁', h₂, hj₂, hc, hc'⟩ :=
      (h.run h₁ hs ht hj).ends
    · rw [Act.tryCatch_of_ok hc, Act.tryCatch_of_ok hc']
      exact ⟨π₂, h₂, hj₂, hR⟩
    · rw [Act.tryCatch_of_error hc, Act.tryCatch_of_error hc']
      cases i with
      | failure f => exact ⟨π₂, h₂, hj₂, rfl⟩
      | blocked => exact ⟨rfl, π₂, h₂, hj₂⟩
      | tooDeep => exact ⟨rfl, π₂, h₂, hj₂⟩
      | unknownName n => exact ⟨rfl, π₂, h₂, hj₂⟩

/-- An action that is not postponed does the same in both sessions. -/
theorem accords_answer (hp : p.Sourced) (hpp : p.Postpones fresh p')
    (hrun : AccordingRunner p fresh run run') {a : Action} (hplain : a.isPlain = true)
    (hnames : ∀ n ∈ a.diags, ¬ fresh n) :
    Accords p fresh at_.thread π SameReport (answer p run at_ a) (answer p' run' at_ a) := by
  have hfind : ∀ n ∈ a.diags, Accords p fresh at_.thread π Linked (findCell n) (findCell n) :=
    fun n hn => accords_findCell (hnames n hn)
  have hlook : ∀ f : World → Answer, Lawful p at_.thread (do return f (← get) : Act Answer) :=
    fun _ => .bind .get fun _ => .pure _
  cases a with
  | state e => exact .answer fun _ _ _ _ => sameReport rfl rfl
  | force e =>
    exact (accords_force hp hpp hrun e).bind (fun _ => hlook _) fun _ _ _ _ _ =>
      .answer fun _ _ _ _ => sameReport rfl rfl
  | chain e => exact .pure fun _ _ => sameReport rfl rfl
  | context ctx => exact .pure fun _ _ => sameReport rfl rfl
  | standing rule e ctx opts => exact .answer fun _ _ _ _ => sameReport rfl rfl
  | pursue rule e ctx opts =>
    refine ((according hp hpp hrun at_).pursueCheck rule e ctx opts π).bind (fun s => ?_)
      fun _ _ s s' hs => ?_
    · split
      · exact .pure _
      · exact .pure _
    · obtain rfl : s' = s := hs
      cases s' with
      | none => exact .pure fun _ _ => sameReport rfl rfl
      | some s => exact .pure fun _ _ => sameReport rfl rfl
  | diagnose e ctx opts => exact .answer fun _ _ _ _ => sameReport rfl rfl
  | validate opts =>
    rw [answer, answer]
    cases opts.firstEmptyRule? with
    | none => exact .pure fun _ _ => sameReport rfl rfl
    | some i => exact .pure fun _ _ => sameReport rfl rfl
  | check n rule e ctx opts =>
    exact accords_createNamed n (accords_createDeferred hp (.check rule e ctx opts))
  | constant n f => exact accords_createNamed n (accords_createDeferred hp (.constant f))
  | known n d => exact accords_createNamed n (accords_createKnown hp d)
  | resolveOrVoid n =>
    refine (hfind n (List.mem_singleton_self n)).bind
      (fun i => (lawful_resolveOrVoid hrun.lawful i).bind fun _ => .pure _) fun π₁ _ i i' hi => ?_
    have hresolve : Accords p fresh at_.thread π₁ SameValue (resolve? p run at_ i)
        (resolve? p' run' at_ i') := accords_resolve? hp hpp hrun hi
    have hvoid : Accords p fresh at_.thread π₁ (fun _ _ _ => True) (resolveOrVoid p run at_ i)
        (resolveOrVoid p' run' at_ i') :=
      hresolve.bind (fun _ => .pure _) fun _ _ _ _ _ => .pure fun _ _ => trivial
    exact hvoid.bind (fun _ => .pure _) fun _ _ _ _ _ => .pure fun _ _ => sameReport rfl rfl
  | resolve n =>
    refine (hfind n (List.mem_singleton_self n)).bind
      (fun i => (lawful_resolve? hrun.lawful i).bind fun _ => .pure _) fun π₁ _ i i' hi => ?_
    exact (accords_resolve? hp hpp hrun hi).bind (fun _ => .pure _) fun _ _ o o' _ =>
      .pure fun _ _ => sameReport (reported?_ofFinding? o) (reported?_ofFinding? o')
  | peek n =>
    exact (hfind n (List.mem_singleton_self n)).bind (fun i => hlook _) fun _ _ _ _ _ =>
      .answer fun _ _ _ _ => sameReport (reported?_ofFinding? _) (reported?_ofFinding? _)
  | isResolved n =>
    exact (hfind n (List.mem_singleton_self n)).bind (fun i => hlook _) fun _ _ _ _ _ =>
      .answer fun _ _ _ _ => sameReport rfl rfl
  | recordReference e ctx opts bag =>
    exact (accords_recordReference hp hpp.alike e ctx opts bag).bind (fun _ => lawful_bagSize bag)
      fun _ _ _ _ _ => accords_bagSize bag
  | pushKnown d bag =>
    refine (accords_createKnown hp d).bind
      (fun i => (lawful_push bag i).bind fun _ => lawful_bagSize bag) fun π₁ _ i i' hi => ?_
    exact (accords_push bag hi).bind (fun _ => lawful_bagSize bag) fun _ _ _ _ _ =>
      accords_bagSize bag
  | push n bag =>
    refine (hfind n (List.mem_singleton_self n)).bind
      (fun i => (lawful_push bag i).bind fun _ => lawful_bagSize bag) fun π₁ _ i i' hi => ?_
    exact (accords_push bag hi).bind (fun _ => lawful_bagSize bag) fun _ _ _ _ _ =>
      accords_bagSize bag
  | bag bag => exact .answer fun _ _ _ _ => sameReport rfl rfl
  | collect bag =>
    refine (accords_collect hp hpp hrun bag).bind (fun ds => hlook _) fun _ _ ds ds' hds =>
      .answer fun _ _ _ _ => congrArg some hds
  | describe e => exact .answer fun _ _ _ _ => sameReport rfl rfl
  | describeDiagnostic n =>
    refine (hfind n (List.mem_singleton_self n)).bind (lawful_describeCell n) fun π₁ _ i i' hi =>
      .look (lawful_describeCell n i) fun π₂ h₂ c c' _ _ hj => ?_
    obtain ⟨d, hd⟩ := hj.matched.cell_of_linked (hi.mono h₂)
    obtain ⟨d', hd'⟩ := hj.matched.cell_of_linked' (hi.mono h₂)
    rw [hd, hd']
    exact hj.ok (sameReport rfl rfl)
  | scripted n plan during => cases hplain
  | race n k => cases hplain
  | raceCompute k f => cases hplain
  | spawn steps => cases hplain
  | launch thread late steps => cases hplain
  | join thread => cases hplain

/-- Answers that report the same are logged alike. -/
theorem accords_note (name : String) {a a' : Answer} (ha : SameReport π a a') :
    Accords p fresh t π Same (modify fun w => w.note (.step name at_.within a) : Act Unit)
      (modify fun w => w.note (.step name at_.within a')) := by
  refine .change (lawful_note _) fun π₁ _ w w' hm => ?_
  refine hm.quiet ⟨hm.tallies.bindings, hm.tallies.demands, ?_⟩ (.refl _) rfl rfl rfl rfl rfl rfl
  show collected (.step name at_.within a' :: w'.log) = collected (.step name at_.within a :: w.log)
  have hentry : Entry.collected? (.step name at_.within a') =
      Entry.collected? (.step name at_.within a) := congrArg (Option.map _) ha
  have hlog : w'.log.filterMap Entry.collected? = w.log.filterMap Entry.collected? :=
    hm.tallies.collected
  unfold collected
  rw [List.filterMap_cons, List.filterMap_cons, hentry, hlog]

/-- Steps accord when their actions do. -/
theorem accords_doing {a a' : Action} (hname : a'.name = a.name)
    (h : Accords p fresh at_.thread π SameReport (answer p run at_ a) (answer p' run' at_ a'))
    (s : Step) :
    Accords p fresh at_.thread π Same (perform p run at_ (s.doing a))
      (perform p' run' at_ (s.doing a')) := by
  cases s with
  | guarded b =>
    unfold perform Step.doing Step.action
    rw [hname]
    exact (accords_guarded h).bind (fun _ => lawful_note _) fun _ _ _ _ ha => accords_note _ ha
  | uncaught b =>
    unfold perform Step.doing Step.action
    rw [hname]
    exact h.bind (fun _ => lawful_note _) fun _ _ _ _ ha => accords_note _ ha

theorem Step.doing_action (s : Step) : s.doing s.action = s := by
  cases s with
  | guarded a => rfl
  | uncaught a => rfl

theorem perform_of_ok {a : Action} {r : Answer} (s : Step)
    (h : answer p run at_ a c = .ok r c₁) :
    perform p run at_ (s.doing a) c =
      .ok ⟨⟩ (c₁.goOn (c₁.now.note (.step a.name at_.within r))) := by
  cases s with
  | guarded b => exact Act.bind_of_ok (Act.tryCatch_of_ok h)
  | uncaught b => exact Act.bind_of_ok h

end Session
end Deferral
