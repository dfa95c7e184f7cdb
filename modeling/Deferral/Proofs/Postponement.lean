/-
# Postponed checks change nothing that is reported

One session records a reference as it stands, the other makes a check of it and puts that into the
bag. Either leaves the worlds matched: what the first has decided, the check comes to. So the
sessions correspond: walks over bags report the same, and entities are demanded and completed alike.

Key definitions: `Session.Adds`, `Session.Recorded`, `Session.breaksOff?`.
Key theorems: `Session.exists_recorded`, `Session.accords_postpone`,
`Session.postponed_corresponds`.
-/
import Mathlib
import Deferral.Proofs.AccordingSteps
import Deferral.Proofs.FinalResults

namespace Deferral
namespace Session

variable {p p' : Program} {fresh : String → Prop} {run run' : Runner} {at_ : Scope} {t : Thread}
variable {π π₁ : List Link} {c c' c₁ c₁' : Course} {w w' w₁ w₁' : World}
variable {candidate : Nat} {ctx : Context} {opts : Options}

/-! ### Recording a reference -/

/-- A diagnostic has been made and put into the bag, or nothing at all. -/
structure Adds (c c₁ : Course) (bag : String) (added : Option Cell) : Prop where
  through : c.Through c.now.Tallies c₁
  cells : c₁.now.cells = c.now.cells ++ added.toList
  bags : ∀ b, c₁.now.bags b =
    if b = bag then c.now.bags b ++ (added.map fun _ => c.now.cells.length).toList else c.now.bags b

section

variable (run : Runner) (at_ : Scope) (bag : String) {added : Option Cell}

theorem Adds.note {bag : String} (h : Adds c c₁ bag added) {name : String}
    {within : List String} {a : Answer} (ha : a.reported? = none) :
    Adds c (c₁.goOn (c₁.now.note (.step name within a))) bag added where
  through := by
    refine h.through.trans (.goOn ?_)
    have hnow : c.now.Tallies c₁.now := h.through.now ⟨rfl, rfl, rfl⟩
    refine hnow.trans ⟨rfl, rfl, ?_⟩
    show collected (.step name within a :: c₁.now.log) = collected c₁.now.log
    have hentry : Entry.collected? (.step name within a) = none := by
      simp only [Entry.collected?, ha, Option.map_none]
    unfold collected
    rw [List.filterMap_cons, hentry]
  cells := h.cells
  bags := h.bags

/-- A diagnostic is made, and put into a bag at once. -/
theorem Adds.push (c : Course) (d : Cell) :
    Adds c ((c.goOn (c.now.addCell d)).goOn ((c.now.addCell d).pushCell bag c.now.cells.length)) bag
      (some d) where
  through := by
    have hmade : c.Through c.now.Tallies (c.goOn (c.now.addCell d)) := .goOn ⟨rfl, rfl, rfl⟩
    exact hmade.trans (.goOn ⟨rfl, rfl, rfl⟩)
  cells := rfl
  bags _ := rfl

/-- Nothing has changed before but keys. -/
theorem Adds.rekey {bag : String} {key : Nat}
    (h : Adds (c.goOn { c.now with nextKey := key }) c₁ bag added) :
    Adds c c₁ bag added where
  through := by
    have hkey : c.Through c.now.Tallies (c.goOn { c.now with nextKey := key }) :=
      .goOn ⟨rfl, rfl, rfl⟩
    exact hkey.trans (h.through.imp fun _ hw => ⟨hw.bindings, hw.demands, hw.collected⟩)
  cells := h.cells
  bags := h.bags

theorem recordReference_of_inapplicable
    (h : p.standingIn c.now candidate ctx opts = .inapplicable) :
    recordReference p at_ candidate ctx opts bag c = .ok ⟨⟩ c ∧ Adds c c bag none := by
  refine ⟨?_, .refl _ c, (List.append_nil _).symm, fun b => ?_⟩
  · have hstanding : deprecationStanding opts (c.now.view p at_.thread)
      (p.reference candidate ctx) = .inapplicable := h
    rw [recordReference, Act.get_bind, hstanding]
    rfl
  · split
    · exact (List.append_nil _).symm
    · rfl

theorem recordReference_of_reportable (h : p.standingIn c.now candidate ctx opts = .reportable) :
    ∃ o c₁, recordReference p at_ candidate ctx opts bag c = .ok ⟨⟩ c₁ ∧
      o.value = .report (diagnose p c.now candidate ctx opts) ∧ c₁.now.names = c.now.names ∧
      Adds c c₁ bag (some (.known o)) := by
  let o := objectAt c.now.nextKey (.report (diagnose p c.now candidate ctx opts))
  let keyed := c.goOn { c.now with nextKey := o.2 }
  have hadds := Adds.push bag keyed (.known o.1)
  refine ⟨o.1, _, ?_, objectAt_value _ _, ?_, hadds.rekey⟩
  · have hstanding : deprecationStanding opts (c.now.view p at_.thread)
        (p.reference candidate ctx) = .reportable := h
    rw [recordReference, Act.get_bind, hstanding]
    rfl
  · rfl

theorem recordReference_of_pending (h : (p.standingIn c.now candidate ctx opts).decision? = none) :
    ∃ c₁, recordReference p at_ candidate ctx opts bag c = .ok ⟨⟩ c₁ ∧ c₁.now.names = c.now.names ∧
      Adds c c₁ bag (some (.deferred (.check .deprecation candidate ctx opts) .empty 0)) := by
  have hadds := Adds.push bag c (.deferred (.check .deprecation candidate ctx opts) .empty 0)
  refine ⟨_, ?_, ?_, hadds⟩
  · have hstanding : deprecationStanding opts (c.now.view p at_.thread)
        (p.reference candidate ctx) = p.standingIn c.now candidate ctx opts := rfl
    rw [recordReference, Act.get_bind, hstanding]
    cases hk : p.standingIn c.now candidate ctx opts with
    | inapplicable =>
      rw [hk] at h
      cases h
    | reportable =>
      rw [hk] at h
      cases h
    | pendingCompletion => rfl
    | pendingAmbiguous => rfl
  · rfl

/-- A check is made under a name, and then put into a bag. -/
theorem performs_check (p : Program) (c : Course) (candidate : Nat) (ctx : Context)
    (opts : Options) (n : String) :
    ∃ c₁, (perform p run at_ (.guarded (.check n .deprecation candidate ctx opts)) >>= fun _ =>
        perform p run at_ (.guarded (.push n bag))) c = .ok ⟨⟩ c₁ ∧
      c₁.now.names = (n, c.now.cells.length) :: c.now.names ∧
      Adds c c₁ bag (some (.deferred (.check .deprecation candidate ctx opts) .empty 0)) := by
  let check : Cell := .deferred (.check .deprecation candidate ctx opts) .empty 0
  let named := (c.goOn (c.now.addCell check)).goOn
    ((c.now.addCell check).addName n c.now.cells.length)
  let noted := named.goOn (named.now.note (.step "new" at_.within .nothing))
  have hcheck : perform p run at_ (.guarded (.check n .deprecation candidate ctx opts)) c =
      .ok ⟨⟩ noted := rfl
  have hlookup : noted.now.names.lookup n = some c.now.cells.length := by
    show ((n, c.now.cells.length) :: c.now.names).lookup n = _
    rw [List.lookup_cons, beq_self_eq_true]
  have hfind : findCell n noted = .ok c.now.cells.length noted := by
    rw [findCell, Act.get_bind, hlookup]
    rfl
  have hpush : answer p run at_ (.push n bag) noted = .ok _ _ :=
    (Act.bind_of_ok hfind).trans rfl
  have hperform := perform_of_ok (.guarded (.push n bag)) hpush
  have hmade : c.Through c.now.Tallies (c.goOn (c.now.addCell check)) := .goOn ⟨rfl, rfl, rfl⟩
  have hnamed : c.Through c.now.Tallies named := hmade.trans (.goOn ⟨rfl, rfl, rfl⟩)
  have hnoted : c.Through c.now.Tallies noted := hnamed.trans (.goOn ⟨rfl, rfl, rfl⟩)
  have hadds : Adds c (noted.goOn (noted.now.pushCell bag c.now.cells.length)) bag (some check) :=
    ⟨hnoted.trans (.goOn ⟨rfl, rfl, rfl⟩), rfl, fun _ => rfl⟩
  exact ⟨_, (Act.bind_of_ok hcheck).trans hperform, rfl, hadds.note rfl⟩

/-- One session has recorded a reference as it stood, the other has made a check of it. -/
theorem Joined.record {bag : String} (hp : p.Sourced) (hj : Joined p fresh π c c') {n : String}
    (hn : fresh n)
    {d : Cell} {l : Link} (h : Adds c c₁ bag added) (h' : Adds c' c₁' bag (some d))
    (hnames : c₁.now.names = c.now.names)
    (hnames' : c₁'.now.names = (n, c'.now.cells.length) :: c'.now.names)
    (hl : l.Holds p fresh { c.now with cells := c₁.now.cells }
      { c'.now with cells := c₁'.now.cells } c'.now.cells.length)
    (hcell : ∀ j, l.cell? = some j → j = c.now.cells.length)
    (hfollows : Follows (π ++ [l]) (added.map fun _ => c.now.cells.length).toList
      [c'.now.cells.length]) :
    Joined p fresh (π ++ [l]) c₁ c₁' := by
  have ht : c.now.Tallies c₁.now := h.through.now ⟨rfl, rfl, rfl⟩
  have ht' : c'.now.Tallies c₁'.now := h'.through.now ⟨rfl, rfl, rfl⟩
  have htallies := ht.symm.trans (hj.matched.tallies.trans ht')
  -- first the diagnostics are made, then the name is given, and then they are in the bags
  have hmade : Matched p fresh (π ++ [l]) { c.now with cells := c₁.now.cells }
      { c'.now with cells := c₁'.now.cells } := by
    refine hj.matched.addCell (d := d) ⟨hj.matched.tallies.bindings, hj.matched.tallies.demands,
      hj.matched.tallies.collected⟩ (extends_of_bindings hp rfl) (fun j hj => ?_) h'.cells hl
      (fun j hj => Nat.le_of_eq (hcell j hj).symm) rfl rfl rfl rfl
    show c₁.now.cells[j]? = _
    rw [h.cells, List.getElem?_append_left hj]
  have hnamed := hmade.addFresh hn c'.now.cells.length
  have hbags : Matched p fresh (π ++ [l]) c₁.now c₁'.now :=
    hnamed.push bag h.bags h'.bags hfollows htallies (extends_of_bindings hp ht.bindings) rfl rfl
      hnames hnames'
  have hleft : Corresponds World.Tallies c₁.worlds c'.worlds :=
    hj.histories.left_of_through (h.through.imp fun _ hw => hw.symm.trans hj.matched.tallies)
  refine ⟨hbags, hleft.right_of_through (h'.through.imp fun _ hw => ?_)⟩
  exact ht.symm.trans (hj.matched.tallies.trans hw)

/-- A reference has been recorded, as what diagnostic `i'` of the other world, a check, is linked
to. -/
structure Recorded (p : Program) (fresh : String → Prop) (c c₁ : Course) (w' : World) (i' : Nat)
    (candidate : Nat) (ctx : Context) (opts : Options) (bag : String) (added : Option Cell)
    (l : Link) : Prop where
  names : c₁.now.names = c.now.names
  adds : Adds c c₁ bag added
  holds : l.Holds p fresh { c.now with cells := c₁.now.cells } w' i'
  cell : l.cell? = added.map fun _ => c.now.cells.length
  silent : added = none → l = .silent candidate ctx opts

/-- Whatever a reference is recorded as in one session, a check of it is linked to that. -/
theorem exists_recorded (p : Program) (fresh : String → Prop) (c : Course) {i' : Nat}
    (hhere : w'.cells[i']? = some (.deferred (.check .deprecation candidate ctx opts) .empty 0)) :
    ∃ c₁ added l, recordReference p at_ candidate ctx opts bag c = .ok ⟨⟩ c₁ ∧
      Recorded p fresh c c₁ w' i' candidate ctx opts bag added l := by
  have hthere : ∀ {d : Cell} {c₁ : Course}, Adds c c₁ bag (some d) →
      c₁.now.cells[c.now.cells.length]? = some d := by
    intro d c₁ hadds
    rw [hadds.cells]
    simp
  have hpending : (p.standingIn c.now candidate ctx opts).decision? = none →
      ∃ c₁ added l, recordReference p at_ candidate ctx opts bag c = .ok ⟨⟩ c₁ ∧
        Recorded p fresh c c₁ w' i' candidate ctx opts bag added l := by
    intro hnone
    obtain ⟨c₁, hc, hnames, hadds⟩ := recordReference_of_pending at_ bag hnone
    let comp : Computation := .check .deprecation candidate ctx opts
    refine ⟨c₁, _, .deferred c.now.cells.length comp comp, hc, hnames, hadds, ?_, rfl, nofun⟩
    exact ⟨.check .deprecation candidate ctx opts, .empty, .empty, 0, hthere hadds, hhere, rfl⟩
  cases hk : p.standingIn c.now candidate ctx opts with
  | inapplicable =>
    obtain ⟨hc, hadds⟩ := recordReference_of_inapplicable at_ bag hk
    refine ⟨c, none, .silent candidate ctx opts, hc, rfl, hadds, ?_, rfl, fun _ => rfl⟩
    exact ⟨.empty, 0, hhere, hk, nofun⟩
  | reportable =>
    obtain ⟨o, c₁, hc, hvalue, hnames, hadds⟩ := recordReference_of_reportable at_ bag hk
    refine ⟨c₁, _, .decided c.now.cells.length candidate ctx opts, hc, hnames, hadds, ?_, rfl,
      nofun⟩
    exact ⟨o, .empty, 0, hthere hadds, hhere, hk, hvalue, nofun⟩
  | pendingCompletion => exact hpending (by rw [hk]; rfl)
  | pendingAmbiguous => exact hpending (by rw [hk]; rfl)

/-- A check that is postponed comes to what the reference was recorded as. -/
theorem accords_postpone {run : Runner} {at_ : Scope} (hp : p.Sourced)
    (hrun : AccordingRunner p fresh run run') {n : String} (hn : fresh n) (s : Step) :
    Accords p fresh at_.thread π Same
      (perform p run at_ (s.doing (.recordReference candidate ctx opts bag)))
      (perform p' run' at_ (.guarded (.check n .deprecation candidate ctx opts)) >>= fun _ =>
        perform p' run' at_ (.guarded (.push n bag))) where
  lawful := lawful_perform hrun.lawful _
  run {π₁} _ {c c'} _ _ hj := by
    obtain ⟨c₁', hc', hnames', hadds'⟩ := performs_check run' at_ bag p' c' candidate ctx opts n
    have hhere : c₁'.now.cells[c'.now.cells.length]? =
        some (.deferred (.check .deprecation candidate ctx opts) .empty 0) := by
      rw [hadds'.cells]
      simp
    obtain ⟨c₁, added, l, hc, h⟩ := exists_recorded at_ bag p fresh c hhere
    have hanswer : answer p run at_ (.recordReference candidate ctx opts bag) c =
        .ok (.bagSize (c₁.now.bags bag).length (c₁.now.pending bag)) c₁ := Act.bind_of_ok hc
    have hnew : (π₁ ++ [l])[c'.now.cells.length]? = some l := by
      rw [← hj.matched.length]
      simp
    have hfollows : Follows (π₁ ++ [l]) (added.map fun _ => c.now.cells.length).toList
        [c'.now.cells.length] := by
      cases added with
      | none =>
        have hsilent : (π₁ ++ [l])[c'.now.cells.length]? = some (.silent candidate ctx opts) := by
          rw [hnew, h.silent rfl]
        exact .silent hsilent .nil
      | some d => exact .paired ⟨l, hnew, h.cell⟩ .nil
    have hnext : ∀ j, l.cell? = some j → j = c.now.cells.length := by
      intro j hcell
      rw [h.cell] at hcell
      obtain ⟨-, -, rfl⟩ := Option.map_eq_some_iff.mp hcell
      rfl
    rw [hc', perform_of_ok s hanswer]
    exact ⟨_, List.prefix_append _ _, hj.record hp hn (h.adds.note rfl) hadds' h.names hnames'
      h.holds hnext hfollows, rfl⟩

end

/-! ### Sessions -/

theorem accords_performEach (hp : p.Sourced) (hpp : p.Postpones fresh p')
    (hrun : AccordingRunner p fresh run run') {steps steps' : List Step}
    (h : Postponed fresh steps steps') :
    Accords p fresh at_.thread π Same (performEach p run at_ steps)
      (performEach p' run' at_ steps') := by
  have hrest : ∀ ss (_ : Unit), Lawful p at_.thread (performEach p run at_ ss) :=
    fun ss _ => lawful_performEach hrun.lawful ss
  induction h with
  | nil => exact .pure fun _ _ => rfl
  | @keep s ss ss' plain names rest ih =>
    have hstep : Accords p fresh at_.thread π Same (perform p run at_ s)
        (perform p' run' at_ s) := by
      rw [← s.doing_action]
      exact accords_doing rfl (accords_answer hp hpp hrun plain names) s
    exact hstep.bind (hrest ss) fun π₁ h₁ _ _ _ => ih.mono h₁
  | @scripted s diag plan during during' ss ss' name nested rest _ ih =>
    have hmade : Accords p fresh at_.thread π Linked (createDeferred (.scripted diag plan during))
        (createDeferred (.scripted diag plan during')) :=
      accords_createDeferred hp (.scripted nested)
    have hanswer : Accords p fresh at_.thread π SameReport
        (answer p run at_ (.scripted diag plan during))
        (answer p' run' at_ (.scripted diag plan during')) := accords_createNamed diag hmade
    have hname : Action.name (.scripted diag plan during') =
        Action.name (.scripted diag plan during) := rfl
    have hstep := accords_doing hname hanswer s
    exact hstep.bind (hrest ss) fun π₁ h₁ _ _ _ => ih.mono h₁
  | @postpone s candidate ctx opts bag n ss ss' name rest ih =>
    -- one step of the first session, two of the second
    have hstep : Accords p fresh at_.thread π Same
        (perform p run at_ (s.doing (.recordReference candidate ctx opts bag)))
        (perform p' run' at_ (.guarded (.check n .deprecation candidate ctx opts)) >>= fun _ =>
          perform p' run' at_ (.guarded (.push n bag))) :=
      accords_postpone bag hp hrun name s
    have htwo := hstep.bind (hrest ss) (g := fun _ => performEach p' run' at_ ss')
      fun π₁ h₁ _ _ _ => ih.mono h₁
    rw [Act.bind_assoc] at htwo
    exact htwo

/-- Steps nested to any depth accord with their postponed form. -/
theorem accordingRunner_performAll (hp : p.Sourced) (hpp : p.Postpones fresh p') (depth : Nat) :
    AccordingRunner p fresh (performAll p depth) (performAll p' depth) := by
  induction depth with
  | zero => exact ⟨lawful_performAll p 0, fun _ _ _ _ _ => .throw _⟩
  | succ depth ih =>
    exact ⟨lawful_performAll p (depth + 1), fun _ _ _ h _ => accords_performEach hp hpp ih h⟩

/-- What a session breaks off with, if it does. -/
def breaksOff? : EStateM.Result Interruption Course Unit → Option Interruption
  | .ok _ _ => none
  | .error x _ => some x

/-- Wherever the recording of references is postponed, at the top or in binders, the sessions
correspond: at corresponding moments the same is completed, the same has been demanded, and every
walk over a bag has reported the same. And they break off alike. -/
theorem postponed_corresponds (hp : p.Sourced) (hpp : p.Postpones fresh p')
    {steps steps' : List Step} (h : Postponed fresh steps steps') (depth : Nat) :
    Corresponds World.Tallies (p.moments depth steps) (p'.moments depth steps') ∧
      breaksOff? (p'.session depth steps') = breaksOff? (p.session depth steps) := by
  have hm : Matched p fresh [] (World.initial p) (World.initial p') := matched_initial hpp.alike
  have hj : Joined p fresh [] ⟨World.initial p, []⟩ ⟨World.initial p', []⟩ :=
    ⟨hm, .start hm.tallies⟩
  have hout := ((accordingRunner_performAll hp hpp depth).accords ⟨mainThread, []⟩ h []).run
    List.prefix_rfl (World.sound_initial p) (hosts_initial p) hj
  unfold Program.moments Program.session Act.course
  obtain ⟨π, a, a', c, c', -, hj, -, hc, hc'⟩ | ⟨π, x, c, c', -, hj, hc, hc'⟩ := hout.ends
  · rw [hc, hc']
    exact ⟨hj.histories, rfl⟩
  · rw [hc, hc']
    exact ⟨hj.histories, rfl⟩

/-- An old entity, and an outer one whose binder performs steps. -/
def referring (steps : List Step) : Program where
  entities :=
    [⟨0, "Outer", .type, none, .plain, .source false false ⟨steps, 0⟩⟩,
      ⟨1, "Inner", .method, some 0, .plain, .source false false .plain⟩,
      ⟨2, "Old", .method, none, ⟨some .plain, false⟩, .source false true .plain⟩]

/-- References to the old entity are recorded inside the inner one, with and without heed to
containers, and the bag is walked. -/
def recordingSteps : List Step :=
  [.guarded (.recordReference 2 nestedSite .standard "bag"),
    .guarded (.recordReference 2 nestedSite CheckRule.heedless "bag"), .guarded (.collect "bag")]

/-- The references are to be checked later. -/
def checkingSteps : List Step :=
  [.guarded (.check "later" .deprecation 2 nestedSite .standard), .guarded (.push "later" "bag"),
    .guarded (.check "later" .deprecation 2 nestedSite CheckRule.heedless),
    .guarded (.push "later" "bag"), .guarded (.collect "bag")]

/-- A site inside the old entity. -/
def oldSite : Context := { nestedSite with containing := some 2 }

/-- References to the old entity are recorded inside it, with and without heed to containers, before
the outer entity is forced and the bag is walked. -/
def referringSteps : List Step :=
  [.guarded (.recordReference 2 oldSite .standard "bag"),
    .guarded (.recordReference 2 oldSite CheckRule.heedless "bag"), .guarded (.force 0),
    .guarded (.collect "bag")]

/-- Both references are to be checked later. -/
def deferringSteps : List Step :=
  [.guarded (.check "later" .deprecation 2 oldSite .standard), .guarded (.push "later" "bag"),
    .guarded (.check "later" .deprecation 2 oldSite CheckRule.heedless),
    .guarded (.push "later" "bag"), .guarded (.force 0), .guarded (.collect "bag")]

theorem referring_sourced (steps : List Step) : (referring steps).Sourced := by
  intro e he
  simp only [referring, List.length_cons, List.length_nil] at he
  interval_cases e
  · exact ⟨_, _, _, rfl⟩
  · exact ⟨_, _, _, rfl⟩
  · exact ⟨_, _, _, rfl⟩

theorem referring_postpones {steps steps' : List Step} (h : Postponed fresh steps steps') :
    (referring steps).Postpones fresh (referring steps') where
  alike :=
    { length := rfl
      named := fun e => by cases e with | zero => rfl | succ e => rfl
      container := fun e => by cases e with | zero => rfl | succ e => rfl
      attributes := fun e => by cases e with | zero => rfl | succ e => rfl
      behaviour := fun e => by
        cases e with
        | zero => exact ⟨_, rfl⟩
        | succ e => exact .refl _ }
  binders {e wrapped completed binder} hbeh := by
    match e with
    | 0 =>
      cases hbeh
      exact ⟨⟨steps', 0⟩, rfl, rfl, h⟩
    | 1 =>
      cases hbeh
      exact ⟨.plain, rfl, rfl, .nil⟩
    | 2 =>
      cases hbeh
      exact ⟨.plain, rfl, rfl, .nil⟩
    | e + 3 => cases hbeh

/-- Under the one options the reference inside the old entity is silent, under the others it is
reported. The walk inside the binder reports two references, and the walk at the end three, whether
or not they are checked later; the bag has four entries if they are, and else three. -/
theorem postponed_corresponds_referring :
    (referring recordingSteps).Sourced ∧
      (referring recordingSteps).Postpones (· = "later") (referring checkingSteps) ∧
      Postponed (· = "later") referringSteps deferringSteps ∧
      Corresponds World.Tallies ((referring recordingSteps).moments 3 referringSteps)
        ((referring checkingSteps).moments 3 deferringSteps) ∧
      breaksOff? ((referring checkingSteps).session 3 deferringSteps) =
        breaksOff? ((referring recordingSteps).session 3 referringSteps) ∧
      ((referring recordingSteps).moments 3 referringSteps).head?.map
          (fun w => ((collected w.log).map (·.2.length), (w.bags "bag").length)) =
        some ([3, 2], 3) ∧
      ((referring checkingSteps).moments 3 deferringSteps).head?.map
          (fun w => ((collected w.log).map (·.2.length), (w.bags "bag").length)) =
        some ([3, 2], 4) := by
  have hlater : (fun n => n = "later") "later" := rfl
  have hbinder : Postponed (· = "later") recordingSteps checkingSteps :=
    .postpone (s := .guarded (.state 0)) hlater (.postpone (s := .guarded (.state 0)) hlater
      (.keep rfl (fun _ h => nomatch h) .nil))
  have hsteps : Postponed (· = "later") referringSteps deferringSteps :=
    .postpone (s := .guarded (.state 0)) hlater (.postpone (s := .guarded (.state 0)) hlater
      (.keep rfl (fun _ h => nomatch h) (.keep rfl (fun _ h => nomatch h) .nil)))
  have hsourced := referring_sourced recordingSteps
  have hpostpones := referring_postpones hbinder
  obtain ⟨hcorresponds, hbreaks⟩ := postponed_corresponds hsourced hpostpones hsteps 3
  refine ⟨hsourced, hpostpones, hsteps, hcorresponds, hbreaks, ?_, ?_⟩
  · cbv
  · cbv

end Session
end Deferral
