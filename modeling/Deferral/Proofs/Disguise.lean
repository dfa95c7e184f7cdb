/-
# The experimental rule as a deprecation rule

Let each entity be deprecated exactly when it was experimental, let the one rule of the policy
silence the sites that opt in to experimental declarations, and let containers be heeded. Then the
deprecation rule says of every reference what the experimental rule said before, whatever is
unfinished.

The forcing loop knows nothing of a rule but the standings that it gives. So it does the same under
either rule, as long as it has the same entities before it: where binders do nothing but return the
attributes, sessions that begin with such entities demand the same completions one after the other,
and end in the same way.

Key definitions: `View.Disguised`, `Options.disguising`, `Session.Program.Disguised`,
`Session.World.Disguised`, `Session.InStep`.
Key theorems: `deprecationStanding_disguising`, `Session.inStep_pursueFrom`,
`Session.experimental_in_disguise`.
-/
import Mathlib
import Deferral.Proofs.Congruence
import Deferral.Proofs.FinalResults
import Deferral.Proofs.Forced

namespace Deferral

variable {ε : Type}

/-! ### Standings -/

/-- Deprecated now exactly if experimental before. -/
def Attributes.Disguised (a a' : Attributes) : Prop := a'.deprecation.isSome = a.experimental

/-- The same entities are finished, and the same ones are being completed here, with attributes in
disguise. -/
structure View.Disguised (v v' : View ε) : Prop where
  finished : ∀ e, v'.finished e = v.finished e
  completingHere : ∀ e, v'.completingHere e = v.completingHere e
  attributes : ∀ e, (v.attributes e).Disguised (v'.attributes e)

/-- Sites that opt in to experimental declarations are silent. -/
def Policy.optIn : Policy := ⟨[⟨.suppressExperimental, .suppress⟩]⟩

/-- The options under which the deprecation rule stands for the experimental one. -/
def Options.disguising (lowersWarnings : Bool) : Options := ⟨.optIn, lowersWarnings, true⟩

theorem Policy.verdict_optIn (flags : SiteFlags) :
    Policy.optIn.verdict flags =
      if flags.contains .suppressExperimental then .suppress else .report := by
  have happlies : Rule.applies ⟨.suppressExperimental, .suppress⟩ flags =
      flags.contains .suppressExperimental := Bool.true_and _
  by_cases h : flags.contains .suppressExperimental = true
  · simp [Policy.verdict, Policy.optIn, happlies, h]
  · simp [Policy.verdict, Policy.optIn, happlies, h]

section

open Session

variable {v v' : View ε} {lowersWarnings : Bool}

theorem exempts_disguising (o : Options) (flags : SiteFlags) :
    CheckRule.deprecation.exempts (.disguising lowersWarnings) flags =
      CheckRule.experimental.exempts o flags := by
  show (Policy.optIn.verdict flags == .suppress) = flags.contains .suppressExperimental
  rw [Policy.verdict_optIn]
  by_cases h : flags.contains .suppressExperimental = true
  · rw [if_pos h, h]
    rfl
  · rw [if_neg h, Bool.eq_false_iff.mpr h]
    rfl

/-- In disguise, a reference stands as it stood by the experimental rule. -/
theorem deprecationStanding_disguising (h : v.Disguised v') (r : Reference ε) :
    deprecationStanding (.disguising lowersWarnings) v' r = experimentalStanding v r := by
  have hfinished : v'.finished = v.finished := funext h.finished
  have hmarks : ∀ e, CheckRule.deprecation.marks (v'.attributes e) =
      CheckRule.experimental.marks (v.attributes e) := h.attributes
  have hdeprecation :=
    CheckRule.deprecation.standing_eq (.disguising lowersWarnings) v' r
  have hexperimental := CheckRule.experimental.standing_eq .standard v r
  simp only [hfinished, hmarks, exempts_disguising .standard] at hdeprecation
  exact hdeprecation.trans hexperimental.symm

theorem unfinishedCount_disguised (h : v.Disguised v') (r : Reference ε) :
    unfinishedCount v' r = unfinishedCount v r := by
  unfold unfinishedCount
  simp only [h.finished]

theorem involvesCompletingHere_disguised (h : v.Disguised v') (r : Reference ε) :
    involvesCompletingHere v' r = involvesCompletingHere v r := by
  have hcompleting : v'.completingHere = v.completingHere := funext h.completingHere
  unfold involvesCompletingHere
  rw [hcompleting]

end

/-- As far completed, with attributes in disguise. -/
inductive Completion.Disguised : Completion → Completion → Prop where
  | notStarted : Disguised .notStarted .notStarted
  | inProgress (owner : Thread) : Disguised (.inProgress owner) (.inProgress owner)
  | complete {a a' : Attributes} (h : a.Disguised a') : Disguised (.complete a) (.complete a')

namespace Completion.Disguised

variable {k k' : Completion} {b b' : Binding} {me : Thread}

theorem isSome_data? (h : k.Disguised k') : k'.data?.isSome = k.data?.isSome := by
  cases h <;> rfl

theorem data? (h : k.Disguised k') : (k.data?.getD .plain).Disguised (k'.data?.getD .plain) := by
  cases h with
  | notStarted => rfl
  | inProgress owner => rfl
  | complete ha => exact ha

theorem inProgress_iff (h : k.Disguised k') : k' = .inProgress me ↔ k = .inProgress me := by
  cases h <;> simp

/-- A demand finds the same to do. -/
theorem demand (h : b.completion.Disguised b'.completion) : b'.demand me = b.demand me := by
  unfold Binding.demand
  generalize b.completion = k at h ⊢
  generalize b'.completion = k' at h ⊢
  cases h <;> rfl

end Completion.Disguised

namespace Session

/-! ### Programs and worlds in disguise -/

/-- Completed by a binder that does nothing but return the attributes. -/
def Behaviour.JustReturns (b : Behaviour) : Prop :=
  ∃ wrapped completed, b = .source wrapped completed .plain

/-- The same entity, with attributes in disguise. -/
structure Entity.Disguised (e e' : Entity) : Prop where
  named : e'.named = e.named
  container : e'.container = e.container
  attributes : e.attributes.Disguised e'.attributes
  behaviour : e'.behaviour = e.behaviour
  returns : e.behaviour.JustReturns

/-- The same entities, with attributes in disguise. -/
structure Program.Disguised (p p' : Program) : Prop where
  entities : List.Forall₂ Entity.Disguised p.entities p'.entities

/-- Each entity is as far completed, with attributes in disguise. -/
def World.Disguised (w w' : World) : Prop :=
  ∀ e, (w.bindings e).completion.Disguised (w'.bindings e).completion

namespace Program.Disguised

variable {p p' : Program} {w w' : World}

theorem entity (h : p.Disguised p') (e : Nat) :
    (p.entity e).Disguised (p'.entity e) ∨ p.entity e = .absent ∧ p'.entity e = .absent := by
  have hlength := h.entities.length_eq
  by_cases he : e < p.entities.length
  · have he' : e < p'.entities.length := hlength ▸ he
    have hget := h.entities.get he he'
    left
    unfold Program.entity
    rw [List.getD_eq_getElem _ _ he, List.getD_eq_getElem _ _ he']
    exact hget
  · have hle : p.entities.length ≤ e := Nat.le_of_not_lt he
    exact .inr ⟨entity_of_length_le hle, entity_of_length_le (hlength ▸ hle)⟩

theorem name (h : p.Disguised p') (e : Nat) :
    (p'.entity e).name = (p.entity e).name := by
  rcases h.entity e with he | ⟨he, he'⟩
  · exact congrArg Named.name he.named
  · rw [he, he']

theorem reference (h : p.Disguised p') (candidate : Nat) (ctx : Context) :
    p'.reference candidate ctx = p.reference candidate ctx := by
  refine Program.reference_congr h.entities.length_eq.symm (fun e => ?_) candidate ctx
  rcases h.entity e with he | ⟨he, he'⟩
  · exact he.container
  · rw [he, he']

theorem view (h : p.Disguised p') (hw : w.Disguised w') (me : Thread) :
    (w.view p me).Disguised (w'.view p' me) := by
  have hentity : ∀ e, w'.finished p' e = w.finished p e ∧
      w'.completingOn p' me e = w.completingOn p me e ∧
      (w.visible p e).Disguised (w'.visible p' e) := by
    intro e
    unfold World.completingOn World.visible World.finished
    rcases h.entity e with he | ⟨he, he'⟩
    · obtain ⟨wrapped, completed, hbeh⟩ := he.returns
      rw [he.behaviour, hbeh]
      refine ⟨(hw e).isSome_data?, ?_, (hw e).data?⟩
      show (_ == Completion.inProgress me) = (_ == Completion.inProgress me)
      rw [Bool.eq_iff_iff, beq_iff_eq, beq_iff_eq]
      exact (hw e).inProgress_iff
    · rw [he, he']
      exact ⟨rfl, rfl, rfl⟩
  exact ⟨fun e => (hentity e).1, fun e => (hentity e).2.1, fun e => (hentity e).2.2⟩

theorem initial (h : p.Disguised p') :
    (World.initial p).Disguised (World.initial p') := by
  intro e
  unfold World.initial
  rcases h.entity e with he | ⟨he, he'⟩
  · obtain ⟨wrapped, completed, hbeh⟩ := he.returns
    dsimp only
    rw [he.behaviour, hbeh]
    by_cases hc : completed = true
    · subst hc
      exact .complete he.attributes
    · rw [Bool.not_eq_true] at hc
      subst hc
      exact .notStarted
  · dsimp only
    rw [he, he']
    exact .notStarted

end Program.Disguised

/-! ### Sessions in step -/

/-- From `w` and `w'` the sessions have come to `u` and `u'`: these are in disguise again, and the
same completions have been demanded meanwhile, in the same order. -/
structure Abreast (w w' u u' : World) : Prop where
  disguised : u.Disguised u'
  demands : ∃ forced, u.demands = forced ++ w.demands ∧ u'.demands = forced ++ w'.demands

/-- Both have ended, with answers that are related, or have broken off alike. -/
inductive EndsInStep {α β : Type} (R : α → β → Prop) (w w' : World) :
    EStateM.Result Interruption Course α → EStateM.Result Interruption Course β → Prop where
  | ok {a : α} {b : β} {c c' : Course} (answers : R a b) (abreast : Abreast w w' c.now c'.now) :
      EndsInStep R w w' (.ok a c) (.ok b c')
  | error (x : Interruption) {c c' : Course} (abreast : Abreast w w' c.now c'.now) :
      EndsInStep R w w' (.error x c) (.error x c')

/-- From worlds in disguise, the actions come to related answers, or break off alike, in worlds in
disguise, and demand the same completions in the same order. -/
def InStep {α β : Type} (R : α → β → Prop) (x : Act α) (y : Act β) : Prop :=
  ∀ c c' : Course, c.now.Disguised c'.now → EndsInStep R c.now c'.now (x c) (y c')

variable {α β γ δ : Type} {R : α → β → Prop} {S : γ → δ → Prop}

theorem Abreast.refl {w w' : World} (h : w.Disguised w') : Abreast w w' w w' :=
  ⟨h, [], rfl, rfl⟩

theorem Abreast.trans {w w' u u' v v' : World} (h : Abreast w w' u u') (h' : Abreast u u' v v') :
    Abreast w w' v v' where
  disguised := h'.disguised
  demands := by
    obtain ⟨forced, hw, hw'⟩ := h.demands
    obtain ⟨later, hu, hu'⟩ := h'.demands
    refine ⟨later ++ forced, ?_, ?_⟩
    · rw [hu, hw, List.append_assoc]
    · rw [hu', hw', List.append_assoc]

theorem EndsInStep.after {w w' u u' : World} {r : EStateM.Result Interruption Course α}
    {r' : EStateM.Result Interruption Course β} (h : Abreast w w' u u')
    (hends : EndsInStep R u u' r r') : EndsInStep R w w' r r' := by
  cases hends with
  | ok answers abreast => exact .ok answers (h.trans abreast)
  | error x abreast => exact .error x (h.trans abreast)

theorem EndsInStep.eq_ok {w w' : World} {a : α} {c : Course}
    {r : EStateM.Result Interruption Course α} (h : EndsInStep Eq w w' (.ok a c) r) :
    ∃ c', r = .ok a c' ∧ Abreast w w' c.now c'.now := by
  cases h with
  | ok answers abreast =>
    subst answers
    exact ⟨_, rfl, abreast⟩

namespace InStep

theorem pure {a : α} {b : β} (h : R a b) :
    InStep R (Pure.pure a : Act α) (Pure.pure b : Act β) :=
  fun _ _ hw => .ok h (.refl hw)

theorem throw (x : Interruption) :
    InStep R (MonadExcept.throw x : Act α) (MonadExcept.throw x : Act β) :=
  fun _ _ hw => .error x (.refl hw)

theorem bind {x : Act α} {y : Act β} {f : α → Act γ} {g : β → Act δ} (hxy : InStep R x y)
    (hfg : ∀ a b, R a b → InStep S (f a) (g b)) : InStep S (x >>= f) (y >>= g) := by
  intro c c' hw
  have hends := hxy c c' hw
  generalize hx : x c = r at hends
  generalize hy : y c' = r' at hends
  cases hends with
  | ok answers abreast =>
    rw [Act.bind_of_ok hx, Act.bind_of_ok hy]
    exact (hfg _ _ answers _ _ abreast.disguised).after abreast
  | error e abreast =>
    rw [Act.bind_of_error hx, Act.bind_of_error hy]
    exact .error e abreast

theorem emit (at_ : Scope) (e : TraceEntry) : InStep Eq (emit at_ e) (Session.emit at_ e) := by
  intro c c' hw
  unfold Session.emit
  split
  · exact .ok rfl ⟨hw, [], rfl, rfl⟩
  · exact .ok rfl (.refl hw)

end InStep

/-! ### The forcing loop -/

section Loop

variable {ε : Type} {h h' : Host Act ε} {rule rule' : View ε → Reference ε → Standing}
variable {r : Reference ε}

theorem inStep_forceAll (hforce : ∀ e, InStep Eq (h.force e) (h'.force e)) :
    ∀ es : List ε, InStep Eq (h.forceAll es) (h'.forceAll es)
  | [] => .pure rfl
  | e :: es => (hforce e).bind fun _ _ _ => inStep_forceAll hforce es

theorem inStep_forceRound (hforce : ∀ e, InStep Eq (h.force e) (h'.force e)) (r : Reference ε)
    (k : Standing) : InStep Eq (h.forceRound r k) (h'.forceRound r k) := by
  refine (hforce r.candidate).bind fun _ _ _ => ?_
  split
  · exact inStep_forceAll hforce r.containers
  · exact .pure rfl

/-- Hosts in step, under rules by which a reference stands alike, take the same turns. -/
theorem inStep_pursueFrom (hview : InStep View.Disguised h.view h'.view)
    (hforce : ∀ e, InStep Eq (h.force e) (h'.force e))
    (hannounce : ∀ n, InStep Eq (h.announce n) (h'.announce n))
    (hrule : ∀ v v', v.Disguised v' → rule' v' r = rule v r) (remaining rounds : Nat) :
    InStep Eq (pursueFrom h rule r remaining rounds) (pursueFrom h' rule' r remaining rounds) := by
  induction remaining using Nat.strongRecOn generalizing rounds with
  | ind remaining ih =>
    rw [pursueFrom.eq_1 h, pursueFrom.eq_1 h']
    refine hview.bind fun v v' hv => ?_
    rw [hrule v v' hv]
    dsimp only
    split
    · exact .pure rfl
    · refine (hannounce _).bind fun _ _ _ => (inStep_forceRound hforce r _).bind fun _ _ _ => ?_
      refine hview.bind fun after after' hafter => ?_
      rw [unfinishedCount_disguised hafter, involvesCompletingHere_disguised hafter]
      split
      · exact ih _ ‹_› _
      · split
        · exact (hannounce _).bind fun _ _ _ => .pure rfl
        · exact .pure rfl

end Loop

/-! ### Completion -/

section Completion

variable {p p' : Program} {run run' : Runner} {at_ : Scope} {e : Nat}
variable {c c' : Course} {w w' : World}

/-- The course on which a binder that does nothing but return the attributes has run. -/
def Course.bound (c : Course) (p : Program) (e : Nat) (me : Thread) : Course :=
  (c.started e me).goOn ((c.started e me).now.updateBinding e (·.finish (p.entity e).attributes))

theorem complete_plain (hrun : ∀ at_, run at_ [] = pure ⟨⟩) :
    complete p run at_ e .plain c = .ok ⟨⟩ (c.bound p e at_.thread) := by
  have hstarts : ¬ ((c.started e at_.thread).now.bindings e).starts ≤ 0 := by
    show ¬ ((c.now.updateBinding e (·.start at_.thread)).bindings e).starts ≤ 0
    rw [World.updateBinding_self]
    exact Nat.not_succ_le_zero _
  refine complete_of_ok ?_
  unfold runBinder
  show (run _ [] >>= fun _ => _) _ = _
  rw [hrun]
  show (if ((c.started e at_.thread).now.bindings e).starts ≤ 0 then _ else _ : Act Unit) _ = _
  rw [if_neg hstarts]
  rfl

theorem World.Disguised.updateBinding (h : w.Disguised w') (e : Nat) (f f' : Binding → Binding)
    (hf : (f (w.bindings e)).completion.Disguised (f' (w'.bindings e)).completion) :
    (w.updateBinding e f).Disguised (w'.updateBinding e f') := by
  intro d
  by_cases hde : d = e
  · subst hde
    rw [World.updateBinding_self, World.updateBinding_self]
    exact hf
  · rw [World.updateBinding_ne w hde, World.updateBinding_ne w' hde]
    exact h d

theorem abreast_demanding (h : c.now.Disguised c'.now) (e : Nat) :
    Abreast c.now c'.now (c.demanding e).now (c'.demanding e).now :=
  ⟨h, [e], rfl, rfl⟩

theorem abreast_bound (h : c.now.Disguised c'.now) (he : (p.entity e).Disguised (p'.entity e))
    (me : Thread) : Abreast c.now c'.now (c.bound p e me).now (c'.bound p' e me).now where
  disguised := by
    have hstarted : (c.started e me).now.Disguised (c'.started e me).now :=
      World.Disguised.updateBinding h e (·.start me) (·.start me) (.inProgress me)
    exact hstarted.updateBinding e (·.finish _) (·.finish _) (.complete he.attributes)
  demands := ⟨[], rfl, rfl⟩

theorem inStep_force (h : p.Disguised p') (hrun : ∀ at_, run at_ [] = pure ⟨⟩)
    (hrun' : ∀ at_, run' at_ [] = pure ⟨⟩) (e : Nat) :
    InStep Eq (force p run at_ e) (force p' run' at_ e) := by
  intro c c' hw
  refine .after (abreast_demanding hw e) ?_
  have hdemanding : (c.demanding e).now.Disguised (c'.demanding e).now := hw
  rcases h.entity e with he | ⟨he, he'⟩
  · obtain ⟨wrapped, completed, hbeh⟩ := he.returns
    rw [force_source hbeh, force_source (he.behaviour.trans hbeh), (hw e).demand]
    cases (c.now.bindings e).demand at_.thread with
    | done => exact .ok rfl (.refl hdemanding)
    | reentrant => exact InStep.emit at_ _ _ _ hdemanding
    | wait => exact .error _ (.refl hdemanding)
    | start =>
      dsimp only
      rw [complete_plain hrun, complete_plain hrun']
      exact .ok rfl (abreast_bound hdemanding he at_.thread)
  · have hbinder : (p.entity e).behaviour.isSource = false := by rw [he]; rfl
    have hbinder' : (p'.entity e).behaviour.isSource = false := by rw [he']; rfl
    rw [force_of_no_binder hbinder, force_of_no_binder hbinder']
    exact .ok rfl (.refl hdemanding)

theorem inStep_pursueCheck (h : p.Disguised p')
    (hrun : ∀ at_, run at_ [] = pure ⟨⟩) (hrun' : ∀ at_, run' at_ [] = pure ⟨⟩)
    (candidate : Nat) (ctx : Context) (opts : Options) (lowersWarnings : Bool) :
    InStep Eq (pursueCheck p run at_ .experimental candidate ctx opts)
      (pursueCheck p' run' at_ .deprecation candidate ctx (.disguising lowersWarnings)) := by
  have hview : ∀ name, InStep View.Disguised (host p run at_ name).view
      (host p' run' at_ name).view := fun _ c c' hw => .ok (h.view hw at_.thread) (.refl hw)
  have hrule : ∀ v v' : View Nat, v.Disguised v' →
      CheckRule.deprecation.standing (.disguising lowersWarnings) v' (p.reference candidate ctx) =
        CheckRule.experimental.standing opts v (p.reference candidate ctx) := by
    intro v v' hv
    exact deprecationStanding_disguising hv _
  unfold pursueCheck
  rw [h.name, h.reference]
  refine InStep.bind (R := Eq) ?_ fun s s' hs => ?_
  · refine (hview _).bind fun v v' hv => ?_
    rw [unfinishedCount_disguised hv]
    exact inStep_pursueFrom (hview _) (inStep_force h hrun hrun') (fun n => .emit at_ _) hrule _ _
  · subst hs
    split
    · exact .pure rfl
    · exact .pure rfl
    · exact .throw _

end Completion

/-- **The experimental rule is a deprecation rule in disguise.** Where each entity is deprecated
exactly if it was experimental, the policy silences the sites that opt in, and containers are
heeded, each reference stands by the deprecation rule as it stood by the experimental one. So does
a pursuit the same by either rule, among entities whose binders only return their attributes: from
any state it demands the same completions in the same order, and it comes to the same decision in
as many rounds, stays undecided or breaks off as the other does. -/
theorem experimental_in_disguise (lowersWarnings : Bool) :
    (∀ (ε : Type) (v v' : View ε) (r : Reference ε), v.Disguised v' →
      deprecationStanding (.disguising lowersWarnings) v' r = experimentalStanding v r) ∧
    ∀ p p' : Program, p.Disguised p' →
      ∀ (depth depth' : Nat) (at_ : Scope) (candidate : Nat) (ctx : Context) (opts : Options),
        InStep Eq (pursueCheck p (performAll p (depth + 1)) at_ .experimental candidate ctx opts)
          (pursueCheck p' (performAll p' (depth' + 1)) at_ .deprecation candidate ctx
            (.disguising lowersWarnings)) := by
  refine ⟨fun ε v v' r h => deprecationStanding_disguising h r, ?_⟩
  intro p p' h depth depth' at_ candidate ctx opts
  exact inStep_pursueCheck h (fun _ => rfl) (fun _ => rfl) candidate ctx opts lowersWarnings

/-- A new entity, and an inner one inside a new one. -/
def new : Program where
  entities :=
    [⟨0, "Outer", .type, none, ⟨none, true⟩, .source true false .plain⟩,
      ⟨1, "Inner", .method, some 0, .plain, .source true false .plain⟩,
      ⟨2, "New", .method, none, ⟨none, true⟩, .source true false .plain⟩]

/-- The same entities, deprecated where they were new. -/
def old : Program where
  entities :=
    [⟨0, "Outer", .type, none, ⟨some .plain, false⟩, .source true false .plain⟩,
      ⟨1, "Inner", .method, some 0, .plain, .source true false .plain⟩,
      ⟨2, "New", .method, none, ⟨some .plain, false⟩, .source true false .plain⟩]

theorem new_disguised : new.Disguised old where
  entities :=
    .cons ⟨rfl, rfl, rfl, rfl, true, false, rfl⟩ <| .cons ⟨rfl, rfl, rfl, rfl, true, false, rfl⟩ <|
      .cons ⟨rfl, rfl, rfl, rfl, true, false, rfl⟩ .nil

/-- Whether the new entity may be used inside the inner one. -/
def newPursuit : Act (Option (Decision × Nat)) :=
  pursueCheck new (performAll new 1) ⟨mainThread, []⟩ .experimental 2 nestedSite .standard

/-- Whether the old entity may be used inside the inner one. -/
def oldPursuit : Act (Option (Decision × Nat)) :=
  pursueCheck old (performAll old 1) ⟨mainThread, []⟩ .deprecation 2 nestedSite (.disguising true)

/-- While nothing is finished, the reference is ambiguous by either rule. All three entities are
forced once, and then the outer one silences the reference. -/
theorem experimental_in_disguise_nested :
    new.Disguised old ∧ (World.initial new).Disguised (World.initial old) ∧
      deprecationStanding (.disguising true) ((World.initial old).view old mainThread)
        (new.reference 2 nestedSite) = .pendingAmbiguous ∧
      ∃ c c', newPursuit ⟨World.initial new, []⟩ = .ok (some (.inapplicable, 1)) c ∧
        oldPursuit ⟨World.initial old, []⟩ = .ok (some (.inapplicable, 1)) c' ∧
        c.now.demands = [0, 1, 2] ∧ c'.now.demands = [0, 1, 2] := by
  have hworlds := new_disguised.initial
  obtain ⟨hstanding, hpursuit⟩ := experimental_in_disguise true
  refine ⟨new_disguised, hworlds, ?_, ?_⟩
  · rw [hstanding Nat _ _ _ (new_disguised.view hworlds mainThread)]
    decide
  · have hanswer : newPursuit.answer? ⟨World.initial new, []⟩ = some (some (.inapplicable, 1)) := by
      cbv
    have hdemands : (newPursuit.course ⟨World.initial new, []⟩).now.demands = [0, 1, 2] := by cbv
    have hends : EndsInStep Eq _ _ (newPursuit ⟨World.initial new, []⟩)
        (oldPursuit ⟨World.initial old, []⟩) :=
      hpursuit new old new_disguised 0 0 ⟨mainThread, []⟩ 2 nestedSite .standard _ _ hworlds
    have hnew := Act.eq_ok_of_answer? hanswer
    rw [hnew] at hends
    obtain ⟨c', hold, abreast⟩ := hends.eq_ok
    obtain ⟨forced, hforced, hforced'⟩ := abreast.demands
    have hnone : forced = [0, 1, 2] :=
      (List.append_nil forced).symm.trans (hforced.symm.trans hdemands)
    refine ⟨_, c', hnew, hold, hdemands, ?_⟩
    rw [hforced', hnone]
    rfl

end Session
end Deferral
