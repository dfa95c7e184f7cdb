/-
# A session is lawful

Every action of a session is lawful when the nested steps that it performs are, so steps nested to
any depth are lawful, by induction on the depth. The two places where more has to be known are the
run of a binder, whose start is undone before anyone outside it looks, and the memoizing of a
result, which has to be what its check comes to.

Key theorems: `Session.lawful_force`, `Session.pursueCheck_reports`, `Session.compute_finds`,
`Session.lawful_resolve?`, `Session.lawful_performAll`.
-/
import Deferral.Proofs.Lawful
import Deferral.Session.Run

namespace Deferral
namespace Session

variable {p : Program} {run : Runner} {at_ : Scope} {t : Thread}

/-! ### Completion -/

theorem lawful_runBinder (hrun : LawfulRunner p run) (e : Nat) (binder : Binder) :
    Lawful p at_.thread (runBinder run at_ e binder) := by
  refine (hrun (at_.inside s!"e{e}") binder.steps).bind fun _ => .bind .get fun w => ?_
  split
  · exact .throw _
  · exact .pure _

theorem complete_of_ok {e : Nat} {binder : Binder} {c c' : Course}
    (h : runBinder run at_ e binder (c.started e at_.thread) = .ok ⟨⟩ c') :
    complete p run at_ e binder c =
      .ok ⟨⟩ (c'.goOn (c'.now.updateBinding e (·.finish (p.entity e).attributes))) := by
  rw [complete, Act.modify_bind]
  exact Act.bind_of_ok (Act.tryCatch_of_ok h)

theorem complete_of_error {e : Nat} {binder : Binder} {c c' : Course} {x : Interruption}
    (h : runBinder run at_ e binder (c.started e at_.thread) = .error x c') :
    complete p run at_ e binder c = .error x (c'.goOn (c'.now.updateBinding e (·.abandon))) := by
  rw [complete, Act.modify_bind]
  exact Act.bind_of_error (Act.tryCatch_of_error h)

theorem passage_complete (hrun : LawfulRunner p run) {e : Nat} (binder : Binder) {c : Course}
    (hs : c.now.Sound p) (ht : c.now.Hosts at_.thread)
    (hidle : (c.now.bindings e).completion = .notStarted) :
    Passage p c ((complete p run at_ e binder).course c) := by
  have hstart : (c.now.updateBinding e (·.start at_.thread)).Sound p := by
    refine hs.updateBinding e (fun d hd => ?_) fun t h => ?_
    · simp [Binding.start] at hd
    · obtain rfl : at_.thread = t := by simpa [Binding.start] using h
      exact ht
  have hlaw : Lawful p at_.thread (runBinder run at_ e binder) := lawful_runBinder hrun e binder
  cases hb : runBinder run at_ e binder (c.started e at_.thread) with
  | ok a c' =>
    have hbinder := hlaw.ok (c := c.started e at_.thread) hstart ht hb
    rw [Act.course_of_ok (complete_of_ok hb)]
    refine .completing hidle hstart hbinder (fun b t => by simp [Binding.finish]) ?_
    refine (hbinder.sound hstart).updateBinding e (fun d hd => ?_) fun t h => ?_
    · simpa [Binding.finish] using hd.symm
    · simp [Binding.finish] at h
  | error x c' =>
    have hbinder := hlaw.error (c := c.started e at_.thread) hstart ht hb
    rw [Act.course_of_error (complete_of_error hb)]
    refine .completing hidle hstart hbinder (fun b t => by simp [Binding.abandon]) ?_
    refine (hbinder.sound hstart).updateBinding e (fun d hd => ?_) fun t h => ?_
    · simp [Binding.abandon] at hd
    · simp [Binding.abandon] at h

/-- An entity that behaves so is completed by a binder. -/
def Behaviour.isSource : Behaviour → Bool
  | .source _ _ _ => true
  | .stub _ _ => false
  | .bare _ => false

/-- The course after a demand has been counted. -/
def Course.demanding (c : Course) (e : Nat) : Course :=
  c.goOn { c.now with demands := e :: c.now.demands }

theorem force_source {e : Nat} {c : Course} {wrapped completed : Bool} {binder : Binder}
    (h : (p.entity e).behaviour = .source wrapped completed binder) :
    force p run at_ e c =
      (match (c.now.bindings e).demand at_.thread with
        | .done => pure ()
        | .reentrant => emit at_ ⟨.event, "re-entrant attribute completion, leaving incomplete", []⟩
        | .wait => throw .blocked
        | .start => complete p run at_ e binder : Act Unit) (c.demanding e) := by
  unfold force
  rw [h]
  rfl

/-- What has no binder is only asked for. -/
theorem force_of_no_binder {e : Nat} (h : (p.entity e).behaviour.isSource = false) :
    force p run at_ e = modify fun w => { w with demands := e :: w.demands } := by
  unfold force
  cases hbeh : (p.entity e).behaviour with
  | source wrapped completed binder =>
    rw [hbeh] at h
    cases h
  | stub needs here => exact Act.bind_pure _
  | bare finished => exact Act.bind_pure _

theorem lawful_force (hrun : LawfulRunner p run) (e : Nat) :
    Lawful p at_.thread (force p run at_ e) := by
  refine .bind (.change_of_agrees fun _ => ⟨rfl, rfl, rfl, Nat.le_refl _⟩) fun _ => ?_
  cases (p.entity e).behaviour with
  | source wrapped completed binder =>
    refine .look fun c hs ht => ?_
    cases hd : (c.now.bindings e).demand at_.thread with
    | done => exact .refl p c
    | reentrant => exact lawful_emit at_ _ c hs ht
    | wait => exact .refl p c
    | start => exact passage_complete hrun binder hs ht (Binding.demand_start_iff.mp hd)
  | stub needs here => exact .pure _
  | bare finished => exact .pure _

/-! ### The forcing loop -/

section Pursuit

variable {ε : Type} {h : Host Act ε}

theorem lawful_forceAll (hforce : ∀ e, Lawful p t (h.force e)) :
    ∀ es : List ε, Lawful p t (h.forceAll es)
  | [] => .pure _
  | e :: es => (hforce e).bind fun _ => lawful_forceAll hforce es

theorem lawful_forceRound (hforce : ∀ e, Lawful p t (h.force e)) (r : Reference ε) (c : Standing) :
    Lawful p t (h.forceRound r c) := by
  refine (hforce r.candidate).bind fun _ => ?_
  split
  · exact lawful_forceAll hforce r.containers
  · exact .pure _

theorem lawful_pursueFrom (hview : Lawful p t h.view) (hforce : ∀ e, Lawful p t (h.force e))
    (hannounce : ∀ n, Lawful p t (h.announce n)) (rule : View ε → Reference ε → Standing)
    (r : Reference ε) (remaining rounds : Nat) :
    Lawful p t (pursueFrom h rule r remaining rounds) := by
  induction remaining using Nat.strongRecOn generalizing rounds with
  | ind remaining ih =>
    rw [pursueFrom]
    refine hview.bind fun v => ?_
    dsimp only
    split
    · exact .pure _
    · refine (hannounce _).bind fun _ => (lawful_forceRound hforce r _).bind fun _ => ?_
      refine hview.bind fun after => ?_
      split
      · exact ih _ ‹_› _
      · split
        · exact (hannounce _).bind fun _ => .pure _
        · exact .pure _

theorem lawful_pursue (hview : Lawful p t h.view) (hforce : ∀ e, Lawful p t (h.force e))
    (hannounce : ∀ n, Lawful p t (h.announce n)) (rule : View ε → Reference ε → Standing)
    (r : Reference ε) : Lawful p t (pursue h rule r) :=
  hview.bind fun _ => lawful_pursueFrom hview hforce hannounce rule r _ _

end Pursuit

theorem lawful_hostPursue (hrun : LawfulRunner p run) (name : String)
    (rule : View Nat → Reference Nat → Standing) (r : Reference Nat) :
    Lawful p at_.thread (pursue (host p run at_ name) rule r) :=
  lawful_pursue (.bind .get fun _ => .pure _) (lawful_force hrun) (fun _ => lawful_emit at_ _)
    rule r

/-- A pursuit that decides ends in a world where the rule gives that decision. -/
theorem pursueFrom_decided {name : String} {rule : View Nat → Reference Nat → Standing}
    {r : Reference Nat} {remaining rounds n : Nat} {c c' : Course} {d : Decision}
    (hp : pursueFrom (host p run at_ name) rule r remaining rounds c = .ok ⟨.decided d, n⟩ c') :
    (rule (c'.now.view p at_.thread) r).decision? = some d := by
  induction remaining using Nat.strongRecOn generalizing rounds c with
  | ind remaining ih =>
    rw [pursueFrom] at hp
    obtain ⟨v, c₁, hv, hp⟩ := Act.bind_eq_ok hp
    cases hv
    dsimp only at hp
    cases hd : (rule (c.now.view p at_.thread) r).decision? with
    | some d' =>
      rw [hd] at hp
      cases hp
      exact hd
    | none =>
      rw [hd] at hp
      obtain ⟨-, c₂, -, hp⟩ := Act.bind_eq_ok hp
      obtain ⟨-, c₃, -, hp⟩ := Act.bind_eq_ok hp
      obtain ⟨after, c₄, hv, hp⟩ := Act.bind_eq_ok hp
      split at hp
      · exact ih _ ‹_› hp
      · split at hp
        · obtain ⟨-, c₅, -, hp⟩ := Act.bind_eq_ok hp
          cases hp
        · cases hp

theorem lawful_pursueCheck (hrun : LawfulRunner p run) (rule : CheckRule) (candidate : Nat)
    (ctx : Context) (opts : Options) :
    Lawful p at_.thread (pursueCheck p run at_ rule candidate ctx opts) := by
  refine (lawful_hostPursue hrun _ _ _).bind fun s => ?_
  split
  · exact .pure _
  · exact .pure _
  · exact .throw _

theorem pursueCheck_decided {rule : CheckRule} {candidate : Nat} {ctx : Context} {opts : Options}
    {c c' : Course} {d : Decision} {n : Nat}
    (hp : pursueCheck p run at_ rule candidate ctx opts c = .ok (some (d, n)) c') :
    (rule.standing opts (c'.now.view p at_.thread) (p.reference candidate ctx)).decision? =
      some d := by
  obtain ⟨s, c₁, hs, hp⟩ := Act.bind_eq_ok hp
  obtain ⟨v, c₂, hv, hs⟩ := Act.bind_eq_ok hs
  obtain ⟨ending, rounds⟩ := s
  cases ending with
  | decided d' =>
    cases hp
    exact pursueFrom_decided hs
  | undecided => cases hp
  | stalled k => cases hp

/-! ### Checks -/

theorem emit_runs (at_ : Scope) (e : TraceEntry) (c : Course) :
    ∃ c' log, emit at_ e c = .ok ⟨⟩ c' ∧ c'.now = { c.now with log } := by
  unfold emit
  split
  · exact ⟨_, _, rfl, rfl⟩
  · exact ⟨_, _, rfl, rfl⟩

theorem emit_ok {e : TraceEntry} {c c' : Course} {u : Unit} (h : emit at_ e c = .ok u c') :
    ∃ log, c'.now = { c.now with log } := by
  obtain ⟨c₁, log, h₁, hlog⟩ := emit_runs at_ e c
  cases h₁.symm.trans h
  exact ⟨log, hlog⟩

theorem inSpan_ok {α : Type} {name : String} {fields : List (String × FieldValue)} {body : Act α}
    {c c' : Course} {a : α} (h : inSpan at_ name fields body c = .ok a c') :
    ∃ c₁ c₂, emit at_ ⟨.span, name, fields⟩ c = .ok ⟨⟩ c₁ ∧ body c₁ = .ok a c₂ := by
  obtain ⟨u, c₁, h₁, h⟩ := Act.bind_eq_ok h
  obtain ⟨b, c₂, h₂, h⟩ := Act.bind_eq_ok h
  obtain ⟨v, c₃, h₃, h⟩ := Act.bind_eq_ok h
  cases h
  refine ⟨c₁, ?_⟩
  cases hb : body c₁ with
  | ok b' c₄ =>
    rw [Act.tryCatch_of_ok hb] at h₂
    cases h₂
    exact ⟨c₂, h₁, rfl⟩
  | error x c₄ =>
    rw [Act.tryCatch_of_error hb] at h₂
    obtain ⟨-, c₅, -, h₂⟩ := Act.bind_eq_ok h₂
    cases h₂

theorem lawful_decideDeprecation (hrun : LawfulRunner p run) (candidate : Nat) (ctx : Context)
    (opts : Options) : Lawful p at_.thread (decideDeprecation p run at_ candidate ctx opts) := by
  refine lawful_inSpan at_ _ _ ((lawful_pursueCheck hrun _ _ _ _).bind fun s => ?_)
  split
  · exact .pure _
  · refine (lawful_emit at_ _).bind fun _ => ?_
    split
    · exact .bind .get fun _ => .pure _
    · exact .pure _

theorem lawful_decideExperimental (hrun : LawfulRunner p run) (candidate : Nat) (ctx : Context)
    (opts : Options) : Lawful p at_.thread (decideExperimental p run at_ candidate ctx opts) := by
  refine lawful_inSpan at_ _ _ ((lawful_pursueCheck hrun _ _ _ _).bind fun s => ?_)
  split <;> exact .pure _

/-- What a check decides in a sound world is what it comes to in the end. -/
theorem pursueCheck_reports {rule : CheckRule} {candidate : Nat} {ctx : Context} {opts : Options}
    {c c' : Course} {d : Decision} {n : Nat}
    (h : pursueCheck p run at_ rule candidate ctx opts c = .ok (some (d, n)) c')
    (hs : c'.now.Sound p) :
    (rule.Reports opts p.final (p.reference candidate ctx) ↔ d = .reportable) ∧
      c'.now.visible p candidate = p.final candidate := by
  have hd := pursueCheck_decided h
  exact ⟨rule.reports_iff_of_decided (hs.view_shows at_.thread) hd,
    hs.visible_eq (rule.finished_of_decided hd)⟩

/-- What both kinds of check do first: in a span of its own, pursue a decision. -/
theorem inSpan_pursueCheck (hrun : LawfulRunner p run) {name : String}
    {fields : List (String × FieldValue)} {rule : CheckRule} {candidate : Nat} {ctx : Context}
    {opts : Options} {k : Option (Decision × Nat) → Act (Option Finding)}
    (hk : ∀ c, k none c = .ok none c) {c c' : Course} {f : Finding} (hs : c.now.Sound p)
    (ht : c.now.Hosts at_.thread)
    (h : inSpan at_ name fields (pursueCheck p run at_ rule candidate ctx opts >>= k) c =
      .ok (some f) c') :
    ∃ d n c₁ c₂, k (some (d, n)) c₁ = .ok (some f) c₂ ∧
      (rule.Reports opts p.final (p.reference candidate ctx) ↔ d = .reportable) ∧
      c₁.now.visible p candidate = p.final candidate := by
  obtain ⟨c₁, c₂, h₁, h⟩ := inSpan_ok h
  have hp₁ := (lawful_emit at_ _).ok hs ht h₁
  have hs₁ : c₁.now.Sound p := hp₁.sound hs
  obtain ⟨s, c₃, h₃, h⟩ := Act.bind_eq_ok h
  have hp₃ := (lawful_pursueCheck hrun rule candidate ctx opts).ok hs₁ (hp₁.hosts ht) h₃
  have hs₃ : c₃.now.Sound p := hp₃.sound hs₁
  cases s with
  | none =>
    rw [hk] at h
    cases h
  | some s => exact ⟨s.1, s.2, c₃, c₂, h, pursueCheck_reports h₃ hs₃⟩

theorem decideDeprecation_finds (hrun : LawfulRunner p run) {candidate : Nat} {ctx : Context}
    {opts : Options} {c c' : Course} {f : Finding} (hs : c.now.Sound p)
    (ht : c.now.Hosts at_.thread)
    (h : decideDeprecation p run at_ candidate ctx opts c = .ok (some f) c') :
    p.Finds .deprecation candidate ctx opts f := by
  obtain ⟨d, n, c₁, c₂, h, hiff, hvis⟩ := inSpan_pursueCheck hrun (fun _ => rfl) hs ht h
  obtain ⟨u, c₃, h₃, h⟩ := Act.bind_eq_ok h
  obtain ⟨log, hlog⟩ := emit_ok h₃
  cases d with
  | reportable =>
    have hvis' : c₃.now.visible p candidate = p.final candidate := by
      rw [hlog]
      exact hvis
    cases h
    exact .inl ⟨hiff.mpr rfl, by simp only [diagnose, Program.report, hvis']⟩
  | inapplicable =>
    cases h
    exact .inr ⟨fun hr => absurd (hiff.mp hr) (by simp), rfl⟩

theorem decideExperimental_finds (hrun : LawfulRunner p run) {candidate : Nat} {ctx : Context}
    {opts : Options} {c c' : Course} {f : Finding} (hs : c.now.Sound p)
    (ht : c.now.Hosts at_.thread)
    (h : decideExperimental p run at_ candidate ctx opts c = .ok (some f) c') :
    p.Finds .experimental candidate ctx opts f := by
  obtain ⟨d, n, c₁, c₂, h, hiff, -⟩ := inSpan_pursueCheck hrun (fun _ => rfl) hs ht h
  cases d with
  | reportable =>
    cases h
    exact .inl ⟨hiff.mpr rfl, rfl⟩
  | inapplicable =>
    cases h
    exact .inr ⟨fun hr => absurd (hiff.mp hr) (by simp), rfl⟩

/-! ### Diagnostics -/

/-- How a scripted computation ends once it has performed its steps. -/
def Plan.conclude (plan : Plan) (call : Nat) : Act (Option Finding) :=
  if call < plan.failures then throw (.failure .computationFailed)
  else if call < plan.undecided then return none
  else return some (plan.finding call)

theorem compute_scripted (call : Nat) (name : String) (plan : Plan) (during : List Step) :
    compute p run at_ call (.scripted name plan during) = (do
      if plan.performing.all fun limit => decide (call < limit) then
        run (at_.inside name) during
      plan.conclude call) := rfl

theorem lawful_compute (hrun : LawfulRunner p run) (call : Nat) (comp : Computation) :
    Lawful p at_.thread (compute p run at_ call comp) := by
  cases comp with
  | check rule candidate ctx opts =>
    cases rule with
    | deprecation => exact lawful_decideDeprecation hrun candidate ctx opts
    | experimental => exact lawful_decideExperimental hrun candidate ctx opts
  | constant f => exact .pure _
  | scripted name plan during =>
    have hconclude : Lawful p at_.thread (plan.conclude call) := by
      unfold Plan.conclude
      split
      · exact .throw _
      · split
        · exact .pure _
        · exact .pure _
    rw [compute_scripted]
    dsimp only
    split
    · exact (hrun (at_.inside name) during).bind fun _ => hconclude
    · exact hconclude

/-- A computed result that is about to be memoized is right for its computation. -/
theorem compute_finds (hrun : LawfulRunner p run) {call : Nat} {rule : CheckRule}
    {candidate : Nat} {ctx : Context} {opts : Options} {c c' : Course} {f : Finding}
    (hs : c.now.Sound p) (ht : c.now.Hosts at_.thread)
    (h : compute p run at_ call (.check rule candidate ctx opts) c = .ok (some f) c') :
    p.Finds rule candidate ctx opts f := by
  cases rule with
  | deprecation => exact decideDeprecation_finds hrun hs ht h
  | experimental => exact decideExperimental_finds hrun hs ht h

theorem objectAt_value (key : Nat) (f : Finding) : (objectAt key f).1.value = f := by
  cases f <;> rfl

/-- The course after an object has been made for a finding. -/
def Course.making (c : Course) (f : Finding) : Course :=
  c.goOn { c.now with nextKey := (objectAt c.now.nextKey f).2 }

theorem objectFor_eq (f : Finding) (c : Course) :
    objectFor f c = .ok (objectAt c.now.nextKey f).1 (c.making f) := rfl

theorem lawful_objectFor (f : Finding) : Lawful p t (objectFor f) := fun _ hs _ =>
  World.Agrees.passage ⟨rfl, rfl, rfl, Nat.le_refl _⟩ hs

theorem objectFor_value {f : Finding} {c c' : Course} {o : Shared Finding}
    (h : objectFor f c = .ok o c') : o.value = f := by
  cases h
  exact objectAt_value _ f

theorem Cell.later_offer (comp : Computation) (slot : WriteOnce Finding) (calls : Nat)
    (o : Shared Finding) :
    (Cell.deferred comp slot calls).Later (.deferred comp (slot.offer o).2 calls) :=
  ⟨_, _, rfl, fun _ h => WriteOnce.stored_offer_of_stored h o⟩

theorem Cell.Right.offer {comp : Computation} {slot : WriteOnce Finding} {calls : Nat}
    (h : (Cell.deferred comp slot calls).Right p) {o : Shared Finding}
    (ho : ∀ rule candidate ctx opts, comp = .check rule candidate ctx opts →
      p.Finds rule candidate ctx opts o.value) :
    (Cell.deferred comp (slot.offer o).2 calls).Right p := by
  cases hst : slot.stored with
  | some held =>
    exact h.of_stored (by rw [WriteOnce.stored_offer_of_stored hst, hst])
  | none =>
    cases comp with
    | check rule candidate ctx opts =>
      intro o' ho'
      rw [WriteOnce.stored_offer_of_empty hst] at ho'
      cases ho'
      exact ho _ _ _ _ rfl
    | constant f => trivial
    | scripted name plan during => trivial

theorem memoize_of_deferred {cell : Nat} {comp : Computation} {slot : WriteOnce Finding}
    {calls : Nat} {c : Course} (hc : c.now.cells[cell]? = some (.deferred comp slot calls))
    (o : Shared Finding) :
    memoize cell o c = .ok (slot.offer o).1
      (c.goOn (c.now.setCell cell (.deferred comp (slot.offer o).2 calls))) := by
  rw [memoize, Act.get_bind]
  simp only [hc]
  rfl

/-- An object is memoized for a diagnostic whose computation it is right for. -/
theorem passage_memoize {cell : Nat} {comp : Computation} {slot : WriteOnce Finding} {calls : Nat}
    {o : Shared Finding} {c : Course} (hs : c.now.Sound p)
    (hc : c.now.cells[cell]? = some (.deferred comp slot calls))
    (ho : ∀ rule candidate ctx opts, comp = .check rule candidate ctx opts →
      p.Finds rule candidate ctx opts o.value) :
    Passage p c ((memoize cell o).course c) := by
  rw [Act.course_of_ok (memoize_of_deferred hc o)]
  exact .goOn (hs.setCell cell ((hs.cells _ (List.mem_of_getElem? hc)).offer ho))
    (World.later_setCell hc (Cell.later_offer comp slot calls o))

/-- A call of the computation of a diagnostic is counted. -/
theorem passage_count {cell : Nat} {comp : Computation} {slot : WriteOnce Finding} {calls : Nat}
    {c : Course} (hs : c.now.Sound p)
    (hc : c.now.cells[cell]? = some (.deferred comp slot calls)) :
    Passage p c (c.goOn (c.now.setCell cell (.deferred comp slot (calls + 1)))) :=
  .goOn (hs.setCell cell ((hs.cells _ (List.mem_of_getElem? hc)).of_stored rfl))
    (World.later_setCell hc ⟨slot, calls + 1, rfl, fun _ h => h⟩)

/-- What a resolution answers once its result has been offered, with an entry in the trace if that
was dropped. -/
def answerOffer (at_ : Scope) (r : Shared Finding × Bool) : Act (Option (Shared Finding)) := do
  if !r.2 then
    emit at_ ⟨.event, "diagnostic resolved concurrently, discarding local result", []⟩
  return some r.1

theorem answerOffer_runs (at_ : Scope) (r : Shared Finding × Bool) (c : Course) :
    ∃ c' log, answerOffer at_ r c = .ok (some r.1) c' ∧ c'.now = { c.now with log } := by
  unfold answerOffer
  split
  · obtain ⟨c', log, h, hlog⟩ := emit_runs at_
      ⟨.event, "diagnostic resolved concurrently, discarding local result", []⟩ c
    exact ⟨c', log, Act.bind_of_ok h, hlog⟩
  · exact ⟨c, _, rfl, rfl⟩

theorem lawful_answerOffer (r : Shared Finding × Bool) : Lawful p t (answerOffer at_ r) := by
  unfold answerOffer
  split
  · exact (lawful_emit at_ _).bind fun _ => .pure _
  · exact .pure _

theorem lawful_resolve? (hrun : LawfulRunner p run) (cell : Nat) :
    Lawful p at_.thread (resolve? p run at_ cell) := by
  refine .look fun c hs ht => ?_
  cases hc : c.now.cells[cell]? with
  | none => exact .refl p c
  | some d =>
  cases d with
  | known o => exact .refl p c
  | deferred comp slot calls =>
  cases hst : slot.stored with
  | some o =>
    simp only [hst]
    exact .refl p c
  | none =>
  simp only [hst]
  have h₁ := passage_count hs hc
  refine Passage.bind (x := modify fun w => w.setCell cell (.deferred comp slot (calls + 1))) h₁ ?_
  rintro _ _ ⟨⟩
  have hs₁ := h₁.sound hs
  have ht₁ := h₁.hosts ht
  refine (lawful_compute hrun calls comp _ hs₁ ht₁).bind fun o c₂ hcomp => ?_
  have h₂ := (lawful_compute hrun calls comp).ok hs₁ ht₁ hcomp
  have hs₂ := h₂.sound hs₁
  have ht₂ := h₂.hosts ht₁
  cases o with
  | none => exact ((lawful_emit at_ _).bind fun _ => .pure _) c₂ hs₂ ht₂
  | some f =>
    refine (lawful_objectFor f c₂ hs₂ ht₂).bind fun o c₃ hobj => ?_
    have h₃ := (lawful_objectFor f).ok hs₂ ht₂ hobj
    -- whatever ran meanwhile, the diagnostic still has this computation
    have hl : c.now.Later c₃.now := ((h₁.trans h₂).trans h₃).later
    obtain ⟨_, hc₃, slot', calls', rfl, -⟩ := hl.cells cell _ hc
    have ho : ∀ rule candidate ctx opts, comp = .check rule candidate ctx opts →
        p.Finds rule candidate ctx opts o.value := by
      rintro rule candidate ctx opts rfl
      exact objectFor_value hobj ▸ compute_finds hrun hs₁ ht₁ hcomp
    have h₄ := passage_memoize (h₃.sound hs₂) hc₃ ho
    refine h₄.bind fun r c₄ hmem => ?_
    rw [Act.course_of_ok hmem] at h₄
    have hs₄ : c₄.now.Sound p := h₄.sound (h₃.sound hs₂)
    have ht₄ : c₄.now.Hosts at_.thread := h₄.hosts (h₃.hosts ht₂)
    exact lawful_answerOffer r c₄ hs₄ ht₄

theorem lawful_resolveOrVoid (hrun : LawfulRunner p run) (cell : Nat) :
    Lawful p at_.thread (resolveOrVoid p run at_ cell) :=
  (lawful_resolve? hrun cell).bind fun _ => .pure _

/-! ### Bags -/

/-- A walk resolves the first diagnostic, walks over the others, and puts its report in front. -/
theorem resolveEach_cons (cell : Nat) (cells : List Nat) :
    resolveEach p run at_ (cell :: cells) = (do
      let o ← resolve? p run at_ cell
      let rest ← resolveEach p run at_ cells
      return (o.bind (·.value.diagnostic?)).toList ++ rest) := by
  refine bind_congr fun o => bind_congr fun rest => ?_
  cases o.bind (·.value.diagnostic?) with
  | none => rfl
  | some d => rfl

theorem lawful_resolveEach (hrun : LawfulRunner p run) :
    ∀ cells : List Nat, Lawful p at_.thread (resolveEach p run at_ cells)
  | [] => .pure _
  | cell :: cells => by
    rw [resolveEach_cons]
    refine (lawful_resolve? hrun cell).bind fun o => ?_
    exact (lawful_resolveEach hrun cells).bind fun rest => .pure _

theorem lawful_collect (hrun : LawfulRunner p run) (bag : String) :
    Lawful p at_.thread (collect p run at_ bag) :=
  .bind .get fun _ => (lawful_resolveEach hrun _).bind fun _ => .pure _

theorem lawful_create {c : Cell} (hc : c.Right p) : Lawful p t (create c) := by
  refine .bind .get fun w => .bind (.change fun w hs _ => ?_) fun _ => .pure _
  exact ⟨hs.addCell hc, World.later_addCell w c⟩

theorem lawful_createKnown (d : Diagnostic) : Lawful p t (createKnown d) :=
  (lawful_objectFor _).bind fun _ => lawful_create trivial

theorem lawful_createDeferred (c : Computation) : Lawful p t (createDeferred c) :=
  lawful_create (Cell.right_of_empty p c)

theorem lawful_push (bag : String) (cell : Nat) :
    Lawful p t (modify fun w => w.pushCell bag cell : Act Unit) :=
  .change fun w hs _ =>
    ⟨hs.of_eq rfl rfl (Nat.le_refl _), World.later_pushCell w bag cell⟩

theorem lawful_recordReference (candidate : Nat) (ctx : Context) (opts : Options) (bag : String) :
    Lawful p t (recordReference p at_ candidate ctx opts bag) := by
  refine .bind .get fun w => ?_
  split
  · exact .pure _
  · exact (lawful_createKnown _).bind fun _ => lawful_push bag _
  · exact (lawful_createDeferred _).bind fun _ => lawful_push bag _
  · exact (lawful_createDeferred _).bind fun _ => lawful_push bag _

/-! ### Steps -/

theorem lawful_findCell (diag : String) : Lawful p t (findCell diag) := by
  refine .bind .get fun w => ?_
  split
  · exact .pure _
  · exact .throw _

theorem lawful_describeCell (diag : String) (cell : Nat) : Lawful p t (do
    let w ← get
    match w.cells[cell]? with
    | some c => return .text (describeCell p w c)
    | none => throw (.unknownName diag) : Act Answer) := by
  refine .bind .get fun w => ?_
  split
  · exact .pure _
  · exact .throw _

theorem lawful_addName (name : String) (cell : Nat) :
    Lawful p t (modify fun w => w.addName name cell : Act Unit) :=
  .change_of_agrees fun _ => ⟨rfl, rfl, rfl, Nat.le_refl _⟩

theorem lawful_createNamed {make : Act Nat} (diag : String) (h : Lawful p t make) :
    Lawful p t (createNamed diag make) :=
  h.bind fun cell => (lawful_addName diag cell).bind fun _ => .pure _

theorem lawful_launched (thread : String) (l : Launched) :
    Lawful p t (modify fun w => { w with launched := (thread, l) :: w.launched } : Act Unit) :=
  .change_of_agrees fun _ => ⟨rfl, rfl, rfl, Nat.le_refl _⟩

theorem lawful_bagSize (bag : String) : Lawful p t (bagSize bag) := .bind .get fun _ => .pure _

theorem lawful_resolveOnThreads (hrun : LawfulRunner p run) (cell : Nat) :
    ∀ n, Lawful p t (resolveOnThreads p run cell n)
  | 0 => .pure _
  | n + 1 => by
    refine (lawful_onThread fun at_ => lawful_resolveOrVoid hrun cell).bind fun o => ?_
    exact (lawful_resolveOnThreads hrun cell n).bind fun _ => .pure _

theorem lawful_offerEach (f : Finding) :
    ∀ n slot, Lawful p t (offerEach f n slot)
  | 0, _ => .pure _
  | n + 1, _ => (lawful_objectFor f).bind fun _ => (lawful_offerEach f n _).bind fun _ => .pure _

theorem lawful_guarded {act : Act Answer} (h : Lawful p t act) : Lawful p t (guarded act) := by
  refine .tryCatch h fun x => ?_
  split
  · exact .pure _
  · exact .throw _

theorem lawful_threadLog (hrun : LawfulRunner p run) (steps : List Step) :
    Lawful p t (threadLog run steps) :=
  lawful_guarded ((lawful_onThread fun at_ => hrun at_ steps).bind fun _ => .pure _)

theorem lawful_startThread (hrun : LawfulRunner p run) (steps : List Step) :
    Lawful p t (startThread run steps) := by
  refine (lawful_threadLog hrun steps).unlessWaiting.bind fun a => ?_
  split <;> exact .pure _

theorem lawful_answer (hrun : LawfulRunner p run) (a : Action) :
    Lawful p at_.thread (answer p run at_ a) := by
  cases a with
  | state e => exact .bind .get fun _ => .pure _
  | force e => exact (lawful_force hrun e).bind fun _ => .bind .get fun _ => .pure _
  | chain e => exact .pure _
  | context ctx => exact .pure _
  | standing rule e ctx opts => exact .bind .get fun _ => .pure _
  | pursue rule e ctx opts =>
    refine (lawful_pursueCheck hrun rule e ctx opts).bind fun s => ?_
    split <;> exact .pure _
  | diagnose e ctx opts => exact .bind .get fun _ => .pure _
  | validate opts =>
    rw [answer]
    split <;> exact .pure _
  | check diag rule e ctx opts => exact lawful_createNamed diag (lawful_createDeferred _)
  | constant diag f => exact lawful_createNamed diag (lawful_createDeferred _)
  | known diag d => exact lawful_createNamed diag (lawful_createKnown d)
  | scripted diag plan during => exact lawful_createNamed diag (lawful_createDeferred _)
  | resolveOrVoid diag =>
    exact (lawful_findCell diag).bind fun cell => (lawful_resolveOrVoid hrun cell).bind fun _ =>
      .pure _
  | resolve diag =>
    exact (lawful_findCell diag).bind fun cell => (lawful_resolve? hrun cell).bind fun _ => .pure _
  | peek diag => exact (lawful_findCell diag).bind fun _ => .bind .get fun _ => .pure _
  | isResolved diag => exact (lawful_findCell diag).bind fun _ => .bind .get fun _ => .pure _
  | recordReference e ctx opts bag =>
    exact (lawful_recordReference e ctx opts bag).bind fun _ => lawful_bagSize bag
  | pushKnown d bag =>
    exact (lawful_createKnown d).bind fun cell => (lawful_push bag cell).bind fun _ =>
      lawful_bagSize bag
  | push diag bag =>
    exact (lawful_findCell diag).bind fun cell => (lawful_push bag cell).bind fun _ =>
      lawful_bagSize bag
  | bag bag => exact .bind .get fun _ => .pure _
  | collect bag => exact (lawful_collect hrun bag).bind fun _ => .bind .get fun _ => .pure _
  | describe e => exact .bind .get fun _ => .pure _
  | describeDiagnostic diag =>
    exact (lawful_findCell diag).bind fun cell => lawful_describeCell diag cell
  | race diag n =>
    refine (lawful_findCell diag).bind fun cell => ?_
    exact (lawful_resolveOnThreads hrun cell n).bind fun _ => .pure _
  | raceCompute n f => exact (lawful_offerEach f n _).bind fun _ => .pure _
  | spawn steps => exact lawful_threadLog hrun steps
  | launch thread late steps =>
    rw [answer]
    split
    · exact (Lawful.pure _).bind fun l => (lawful_launched thread l).bind fun _ => .pure _
    · exact (lawful_startThread hrun steps).bind fun l => (lawful_launched thread l).bind fun _ =>
        .pure _
  | join thread =>
    refine .bind .get fun w => ?_
    split
    · exact .pure _
    · exact lawful_threadLog hrun _
    · exact .throw _

theorem lawful_perform (hrun : LawfulRunner p run) (s : Step) :
    Lawful p at_.thread (perform p run at_ s) := by
  cases s with
  | guarded a => exact (lawful_guarded (lawful_answer hrun a)).bind fun _ => lawful_note _
  | uncaught a => exact (lawful_answer hrun a).bind fun _ => lawful_note _

theorem lawful_performEach (hrun : LawfulRunner p run) :
    ∀ steps, Lawful p at_.thread (performEach p run at_ steps)
  | [] => .pure _
  | s :: steps => (lawful_perform hrun s).bind fun _ => lawful_performEach hrun steps

/-- Steps nested to any depth are lawful. -/
theorem lawful_performAll (p : Program) : ∀ depth, LawfulRunner p (performAll p depth)
  | 0 => fun _ _ => .throw _
  | depth + 1 => fun _ steps => lawful_performEach (lawful_performAll p depth) steps

/-! ### Moments -/

/-- The worlds that a session passes through, when its steps nest at most `depth` deep. -/
def Program.moments (p : Program) (depth : Nat) (steps : List Step) : List World :=
  ((performAll p depth ⟨mainThread, []⟩ steps).course ⟨World.initial p, []⟩).worlds

theorem hosts_initial (p : Program) : (World.initial p).Hosts mainThread :=
  ⟨Nat.le_refl _, Nat.lt_succ_self _⟩

theorem sound_of_mem_moments {depth : Nat} {steps : List Step} {w : World}
    (h : w ∈ p.moments depth steps) : w.Sound p := by
  have hs := World.sound_initial p
  have hpass := lawful_performAll p depth ⟨mainThread, []⟩ steps ⟨World.initial p, []⟩ hs
    (hosts_initial p)
  obtain ⟨ws, hws, hall⟩ := hpass.path
  rw [Program.moments, hws] at h
  rcases List.mem_append.mp h with h | h
  · exact hall w h
  · exact List.mem_singleton.mp h ▸ hs

end Session
end Deferral
