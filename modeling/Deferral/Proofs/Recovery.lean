/-
# Recovery from failing binders

At top level nobody is completing anything, so a check that is resolved there is decided, and comes
to what the entities end with. A failing binder does not change this: back at top level, each
binder that was active is undone, and everything else is as it was when the binder failed. So a
check that is resolved again comes to what it comes to in a program whose binders never fail.

Key definitions: `Session.World.Idle`, `Session.Program.reliable`, `Session.Recovers`.
Key theorems: `Session.resolve?_idle`, `Session.reliable_not_failsAt`, `Session.session_recovers`.
-/
import Mathlib
import Deferral.Proofs.FinalResults
import Deferral.Proofs.ShortPursuit
import Deferral.Proofs.Unwinding

namespace Deferral
namespace Session

variable {p : Program} {c c' c₁ c₂ : Course} {w w' : World} {at_ : Scope} {run : Runner}

/-! ### Top level -/

/-- Nobody is completing anything. -/
def World.Idle (w : World) : Prop := ∀ e t, (w.bindings e).completion ≠ .inProgress t

theorem World.idle_initial (p : Program) : (World.initial p).Idle := by
  intro e t h
  simp only [World.initial] at h
  split at h
  · cases h
  · cases h

theorem World.Idle.later (h : w.Idle) (hl : w.Later w') : w'.Idle := by
  intro e t he
  exact h e t (((hl.bindings e).inProgress_iff t).mp he)

/-- The scope of the steps of a session. -/
def topLevel : Scope := ⟨mainThread, []⟩

section

variable {depth : Nat} {steps : List Step}

theorem session_passage (h : p.session depth steps = .ok ⟨⟩ c) :
    Passage p ⟨World.initial p, []⟩ c :=
  (lawful_performAll p depth ⟨mainThread, []⟩ steps).ok (World.sound_initial p) (hosts_initial p) h

theorem session_sound (h : p.session depth steps = .ok ⟨⟩ c) : c.now.Sound p :=
  (session_passage h).sound (World.sound_initial p)

theorem session_hosts (h : p.session depth steps = .ok ⟨⟩ c) : c.now.Hosts mainThread :=
  (session_passage h).hosts (hosts_initial p)

theorem session_idle (h : p.session depth steps = .ok ⟨⟩ c) : c.now.Idle :=
  (World.idle_initial p).later (session_passage h).later

theorem session_kept (h : p.session depth steps = .ok ⟨⟩ c) : c.Kept := by
  have hinitial : Course.Kept ⟨World.initial p, []⟩ := by
    intro w hw
    rw [List.mem_singleton.mp hw]
    exact .refl _
  have hk := (orderly_performAll p depth ⟨mainThread, []⟩ steps).kept _ (World.sound_initial p)
    (hosts_initial p) hinitial
  rwa [Act.course_of_ok (show performAll p depth ⟨mainThread, []⟩ steps _ = .ok ⟨⟩ c from h)] at hk

theorem performEach_append (xs ys : List Step) :
    performEach p run at_ (xs ++ ys) =
      performEach p run at_ xs >>= fun _ => performEach p run at_ ys := by
  induction xs with
  | nil => rfl
  | cons s xs ih =>
    rw [List.cons_append, performEach, ih, performEach, Act.bind_assoc]

/-- A session goes on after a step that fails and is guarded. -/
theorem later_of_session {f : Failure} {a : Action} {more : List Step}
    (hc : p.session (depth + 1) steps = .ok ⟨⟩ c)
    (h : answer p (performAll p depth) topLevel a c = .error (.failure f) c')
    (h₂ : p.session (depth + 1) (steps ++ .guarded a :: more) = .ok ⟨⟩ c₂) :
    c'.now.Later c₂.now := by
  have hrun := lawful_performAll p depth
  have hlaw : Lawful p topLevel.thread (answer p (performAll p depth) topLevel a) :=
    lawful_answer hrun a
  have hpass := hlaw.error (session_sound hc) (session_hosts hc) h
  have hs' : c'.now.Sound p := hpass.sound (session_sound hc)
  have ht' : c'.now.Hosts mainThread := hpass.hosts (session_hosts hc)
  have hsteps : performEach p (performAll p depth) topLevel (steps ++ .guarded a :: more)
      ⟨World.initial p, []⟩ = .ok ⟨⟩ c₂ := h₂
  have hfirst : performEach p (performAll p depth) topLevel steps ⟨World.initial p, []⟩ =
      .ok ⟨⟩ c := hc
  rw [performEach_append, Act.bind_of_ok hfirst] at hsteps
  obtain ⟨u, c₃, hstep, hmore⟩ := Act.bind_eq_ok hsteps
  have hguarded : guarded (answer p (performAll p depth) topLevel a) c = .ok (.failed f) c' := by
    unfold guarded
    rw [Act.tryCatch_of_error h]
    rfl
  have hnote : (modify fun w => w.note (.step a.name topLevel.within (.failed f)) : Act Unit) c' =
      .ok ⟨⟩ c₃ := (Act.bind_of_ok hguarded).symm.trans hstep
  have hpass₃ := (lawful_note (p := p) (t := mainThread)
    (.step a.name topLevel.within (.failed f))).ok hs' ht' hnote
  have hlaw₂ : Lawful p topLevel.thread (performEach p (performAll p depth) topLevel more) :=
    lawful_performEach hrun more
  have hpass₂ := hlaw₂.ok (hpass₃.sound hs') (hpass₃.hosts ht') hmore
  exact hpass₃.later.trans hpass₂.later

end

/-! ### Checks at top level -/

/-- A pursuit that stays undecided ends where the thread is completing an entity involved. -/
theorem pursueFrom_undecided {name : String} {rule : View Nat → Reference Nat → Standing}
    {r : Reference Nat} {remaining rounds n : Nat}
    (hp : pursueFrom (host p run at_ name) rule r remaining rounds c = .ok ⟨.undecided, n⟩ c') :
    involvesCompletingHere (c'.now.view p at_.thread) r = true := by
  induction remaining using Nat.strongRecOn generalizing rounds c with
  | ind remaining ih =>
    rw [pursueFrom] at hp
    obtain ⟨v, c₁, hv, hp⟩ := Act.bind_eq_ok hp
    cases hv
    dsimp only at hp
    cases hd : (rule (c.now.view p at_.thread) r).decision? with
    | some d =>
      rw [hd] at hp
      cases hp
    | none =>
      rw [hd] at hp
      obtain ⟨-, c₂, -, hp⟩ := Act.bind_eq_ok hp
      obtain ⟨-, c₃, -, hp⟩ := Act.bind_eq_ok hp
      obtain ⟨after, c₄, hv, hp⟩ := Act.bind_eq_ok hp
      cases hv
      split at hp
      · exact ih _ ‹_› hp
      · split at hp
        · rename_i hown
          obtain ⟨u, c₅, hann, hp⟩ := Act.bind_eq_ok hp
          cases hp
          obtain ⟨log, hlog⟩ := emit_ok hann
          -- the log is no part of a view
          have hview : c'.now.view p at_.thread = c₃.now.view p at_.thread := by
            rw [hlog]
            rfl
          rw [hview]
          exact hown
        · cases hp

theorem World.Idle.not_completingHere (h : w.Idle) (hsrc : p.Sourced)
    (me : Thread) (e : Nat) : (w.view p me).completingHere e = false := by
  rcases hsrc.source_or_absent e with he | habsent
  · rw [World.view_completingHere he, Binding.isInProgressOn, beq_eq_false_iff_ne]
    exact h e me
  · simp [World.view, World.completingOn, habsent, Entity.absent]

section

variable {rule : CheckRule} {candidate : Nat} {ctx : Context} {opts : Options}

/-- Where nobody is completing anything, a check is not left undecided. -/
theorem pursueCheck_idle (hrun : LawfulRunner p run) (hsrc : p.Sourced)
    (hs : c.now.Sound p) (ht : c.now.Hosts at_.thread) (hidle : c.now.Idle) :
    pursueCheck p run at_ rule candidate ctx opts c ≠ .ok none c' := by
  intro h
  have hl := ((lawful_pursueCheck hrun rule candidate ctx opts).ok hs ht h).later
  obtain ⟨s, c₁, hs₁, h⟩ := Act.bind_eq_ok h
  obtain ⟨v, c₂, hv, hp⟩ := Act.bind_eq_ok hs₁
  obtain ⟨ending, rounds⟩ := s
  cases ending with
  | decided d => cases h
  | stalled k => cases h
  | undecided =>
    cases h
    have hown := pursueFrom_undecided hp
    obtain ⟨e, -, he⟩ := List.any_eq_true.mp hown
    rw [(hidle.later hl).not_completingHere hsrc at_.thread e] at he
    cases he

theorem inSpan_idle (hrun : LawfulRunner p run) (hsrc : p.Sourced)
    {name : String} {fields : List (String × FieldValue)}
    {k : Option (Decision × Nat) → Act (Option Finding)}
    (hk : ∀ d n c c', k (some (d, n)) c ≠ .ok none c') (hs : c.now.Sound p)
    (ht : c.now.Hosts at_.thread) (hidle : c.now.Idle) :
    inSpan at_ name fields (pursueCheck p run at_ rule candidate ctx opts >>= k) c ≠
      .ok none c' := by
  intro h
  obtain ⟨c₁, c₂, h₁, h⟩ := inSpan_ok h
  have hp₁ := (lawful_emit at_ _).ok hs ht h₁
  obtain ⟨s, c₃, h₃, h⟩ := Act.bind_eq_ok h
  cases s with
  | none =>
    exact pursueCheck_idle hrun hsrc (hp₁.sound hs) (hp₁.hosts ht) (hidle.later hp₁.later) h₃
  | some s => exact hk s.1 s.2 c₃ c₂ h

theorem compute_idle (hrun : LawfulRunner p run) (hsrc : p.Sourced)
    {call : Nat} (hs : c.now.Sound p) (ht : c.now.Hosts at_.thread) (hidle : c.now.Idle) :
    compute p run at_ call (.check rule candidate ctx opts) c ≠ .ok none c' := by
  cases rule with
  | deprecation =>
    refine inSpan_idle hrun hsrc (fun d n c₁ c₂ h => ?_) hs ht hidle
    obtain ⟨-, c₃, -, h⟩ := Act.bind_eq_ok h
    cases d with
    | inapplicable => cases h
    | reportable => cases h
  | experimental =>
    refine inSpan_idle hrun hsrc (fun d n c₁ c₂ h => ?_) hs ht hidle
    cases d with
    | inapplicable => cases h
    | reportable => cases h

/-- Where nobody is completing anything, a resolution of a check answers what the check comes to,
unless it breaks off. -/
theorem resolve?_idle (hrun : LawfulRunner p run) (hsrc : p.Sourced)
    (hs : c.now.Sound p) (ht : c.now.Hosts at_.thread) (hidle : c.now.Idle) {cell calls : Nat}
    {slot : WriteOnce Finding} {r : Option (Shared Finding)}
    (hc : c.now.cells[cell]? = some (.deferred (.check rule candidate ctx opts) slot calls))
    (h : resolve? p run at_ cell c = .ok r c') :
    ∃ o, r = some o ∧ p.Finds rule candidate ctx opts o.value := by
  cases hst : slot.stored with
  | some o =>
    rw [resolve?_of_result hc (o := o) hst] at h
    cases h
    exact ⟨o, rfl, hs.cells _ (List.mem_of_getElem? hc) o hst⟩
  | none =>
    rw [resolve?_of_empty hc hst] at h
    obtain ⟨f, c₁, hcomp, h⟩ := Act.bind_eq_ok h
    have hcount : Passage p c (c.counting cell (.check rule candidate ctx opts) slot calls) :=
      passage_count hs hc
    have hs₀ := hcount.sound hs
    have ht₀ := hcount.hosts ht
    cases f with
    | none => exact absurd hcomp (compute_idle hrun hsrc hs₀ ht₀ (hidle.later hcount.later))
    | some f =>
      have hfinds := compute_finds hrun hs₀ ht₀ hcomp
      have hpass := (lawful_compute hrun calls (.check rule candidate ctx opts)).ok hs₀ ht₀ hcomp
      obtain ⟨_, hc₁, slot', calls', rfl, -⟩ := (hcount.later.trans hpass.later).cells cell _ hc
      have hright := (hpass.sound hs₀).cells _ (List.mem_of_getElem? hc₁)
      have hvalue := objectAt_value c₁.now.nextKey f
      have hoffer := hright.offer (o := (objectAt c₁.now.nextKey f).1) (by
        rintro _ _ _ _ ⟨⟩
        rwa [hvalue])
      exact ⟨_, (keepFinding_of_deferred hc₁ h).1, hoffer _ (WriteOnce.stored_offer _ _)⟩

end

/-! ### Binders that never fail -/

/-- The entity with a binder that never fails. -/
def Entity.reliable (e : Entity) : Entity where
  id := e.id
  name := e.name
  kind := e.kind
  container := e.container
  attributes := e.attributes
  behaviour :=
    match e.behaviour with
    | .source wrapped completed binder => .source wrapped completed { binder with failures := 0 }
    | b => b

/-- The program with binders that never fail. -/
def Program.reliable (p : Program) : Program where
  entities := p.entities.map Entity.reliable

theorem entity_reliable (p : Program) (e : Nat) : p.reliable.entity e = (p.entity e).reliable := by
  unfold Program.entity Program.reliable
  rw [List.getD_eq_getElem?_getD, List.getD_eq_getElem?_getD, List.getElem?_map]
  cases p.entities[e]? with
  | none => rfl
  | some entity => rfl

theorem alike_reliable (p : Program) : p.Alike p.reliable where
  length := List.length_map _
  named e := by rw [entity_reliable]; rfl
  container e := by rw [entity_reliable]; rfl
  attributes e := by rw [entity_reliable]; rfl
  behaviour e := by
    rw [entity_reliable]
    unfold Entity.reliable
    cases (p.entity e).behaviour with
    | source wrapped completed binder => exact ⟨_, rfl⟩
    | stub needs here => rfl
    | bare finished => rfl

theorem isSource_reliable {e : Nat} (h : p.IsSource e) : p.reliable.IsSource e := by
  obtain ⟨wrapped, completed, binder, hbeh⟩ := h
  refine ⟨wrapped, completed, { binder with failures := 0 }, ?_⟩
  rw [entity_reliable, Entity.reliable, hbeh]

/-- Such a binder never fails. -/
theorem reliable_not_failsAt {e : Nat} : ¬ p.reliable.FailsAt e c := by
  rintro ⟨wrapped, completed, binder, depth, at_, c₀, hbeh, -, hactive, hle⟩
  rw [entity_reliable, Entity.reliable] at hbeh
  split at hbeh
  · cases hbeh
    rw [hactive, Binding.start] at hle
    exact absurd hle (Nat.not_succ_le_zero _)
  · rename_i hother
    exact hother _ _ _ hbeh

/-! ### Recovery -/

/-- What a call that began at `c`, and broke off at `raised`, leaves behind at top level. -/
structure Unwinds (c raised c' : Course) : Prop where
  path : c.worlds <:+ raised.worlds ∧ raised.worlds <:+ c'.worlds
  idle : c'.now.Idle
  undone : ∀ e t, (raised.now.bindings e).completion = .inProgress t →
    c'.now.bindings e = (raised.now.bindings e).abandon
  untouched : ∀ e, (∀ t, (raised.now.bindings e).completion ≠ .inProgress t) →
    c'.now.bindings e = raised.now.bindings e
  cells : c'.now.cells = raised.now.cells
  bags : c'.now.bags = raised.now.bags
  kept : c'.Kept

/-- The resolution answers the finding, or breaks off for another reason than a failing binder. -/
def Gives (f : Finding) : EStateM.Result Interruption Course (Option (Shared Finding)) → Prop
  | .ok r _ => r.map (·.value) = some f
  | .error x _ => ∀ e, x ≠ .failure (.binderFailed e)

/-- What a call at top level that a failing binder breaks off leaves behind, and what comes of
resolving a check again. -/
structure Recovers (p : Program) (depth : Nat) (steps : List Step) (a : Action) (e : Nat)
    (c c' : Course) : Prop where
  unwound : ∃ raised, p.FailsAt e raised ∧ Unwinds c raised c'
  /-- A resolution that breaks off, at any depth, ends where its computation breaks off: nothing is
  offered to its slot. -/
  unpublished : ∀ {within : Nat} {at_ : Scope} {cell : Nat} {x : Interruption} {c₁ c₂ : Course},
    resolve? p (performAll p within) at_ cell c₁ = .error x c₂ →
      ∃ comp slot calls, c₁.now.cells[cell]? = some (.deferred comp slot calls) ∧
        slot.stored = none ∧
        compute p (performAll p within) at_ calls comp (c₁.counting cell comp slot calls) =
          .error x c₂
  /-- A check that is resolved again later in the session gives what it gives in each session of the
  program whose binders never fail. -/
  retried : ∀ {cell calls candidate : Nat} {rule : CheckRule} {ctx : Context} {opts : Options}
    {slot : WriteOnce Finding},
    c'.now.cells[cell]? = some (.deferred (.check rule candidate ctx opts) slot calls) →
      ∃ f, p.Finds rule candidate ctx opts f ∧
        (∀ more c₂, p.session (depth + 1) (steps ++ .guarded a :: more) = .ok ⟨⟩ c₂ →
          ∀ within r c₃, resolve? p (performAll p within) topLevel cell c₂ = .ok r c₃ →
            r.map (·.value) = some f) ∧
        ∀ depth' steps' c₂, p.reliable.session depth' steps' = .ok ⟨⟩ c₂ →
          ∀ cell' slot' calls',
            c₂.now.cells[cell']? = some (.deferred (.check rule candidate ctx opts) slot' calls') →
              ∀ within, Gives f
                (resolve? p.reliable (performAll p.reliable within) topLevel cell' c₂)

/-- A check comes to one thing only. -/
theorem finds_unique {rule : CheckRule} {candidate : Nat} {ctx : Context} {opts : Options}
    {f f' : Finding} (h : p.Finds rule candidate ctx opts f)
    (h' : p.Finds rule candidate ctx opts f') : f' = f := by
  rcases h with ⟨hr, rfl⟩ | ⟨hr, rfl⟩
  · rcases h' with ⟨-, rfl⟩ | ⟨hr', -⟩
    · rfl
    · exact absurd hr hr'
  · rcases h' with ⟨hr', -⟩ | ⟨-, rfl⟩
    · exact absurd hr' hr
    · rfl

theorem exists_finds (p : Program) (rule : CheckRule) (candidate : Nat) (ctx : Context)
    (opts : Options) : ∃ f, p.Finds rule candidate ctx opts f := by
  by_cases h : rule.Reports opts p.final (p.reference candidate ctx)
  · exact ⟨_, .inl ⟨h, rfl⟩⟩
  · exact ⟨_, .inr ⟨h, rfl⟩⟩

/-- In the program whose binders never fail, each resolution of a check at top level gives what the
check comes to. -/
theorem gives_reliable (hsrc : p.Sourced) {depth within cell calls : Nat}
    {steps : List Step} {rule : CheckRule} {candidate : Nat} {ctx : Context} {opts : Options}
    {f : Finding} {slot : WriteOnce Finding} (hf : p.Finds rule candidate ctx opts f)
    (hc : p.reliable.session depth steps = .ok ⟨⟩ c)
    (hcell : c.now.cells[cell]? = some (.deferred (.check rule candidate ctx opts) slot calls)) :
    Gives f (resolve? p.reliable (performAll p.reliable within) topLevel cell c) := by
  have hsrc' : p.reliable.Sourced := by
    intro e he
    rw [(alike_reliable p).length] at he
    exact isSource_reliable (hsrc e he)
  cases hr : resolve? p.reliable (performAll p.reliable within) topLevel cell c with
  | ok r c' =>
    obtain ⟨o, rfl, ho⟩ := resolve?_idle (lawful_performAll p.reliable within) hsrc'
      (session_sound hc) (session_hosts hc) (session_idle hc) hcell hr
    have hvalue := finds_unique hf ((alike_reliable p).finds.mp ho)
    exact congrArg some hvalue
  | error x c' =>
    have horderly : Orderly p.reliable mainThread
        (resolve? p.reliable (performAll p.reliable within) topLevel cell) :=
      (orderliness (orderly_performAll p.reliable within) topLevel).resolve? cell
    obtain ⟨raised, hraised⟩ := horderly.breaks (session_sound hc) (session_hosts hc) hr
    intro e he
    exact reliable_not_failsAt (hraised.failed e he)

/-- **Failing binders leave order behind.** Let a call at top level break off because a binder
fails, however deep that is nested. Then nobody is completing anything afterwards; each entity whose
binder was active when it failed is not started; and all else is as it was then. What was complete,
memoized or in a bag at any earlier moment is so still, and no computation that was cut short has
memoized anything. A check that is resolved again gives what it would give if no binder failed. -/
theorem session_recovers (hsrc : p.Sourced) {depth : Nat}
    {steps : List Step} (hc : p.session (depth + 1) steps = .ok ⟨⟩ c) {a : Action} {e : Nat}
    (h : answer p (performAll p depth) topLevel a c = .error (.failure (.binderFailed e)) c') :
    Recovers p depth steps a e c c' where
  unwound := by
    have hs := session_sound hc
    have ht : c.now.Hosts topLevel.thread := session_hosts hc
    have horderly : Orderly p topLevel.thread (answer p (performAll p depth) topLevel a) :=
      orderly_answer p depth topLevel a
    obtain ⟨raised, hr⟩ := horderly.breaks hs ht h
    have hidle : c'.now.Idle := (session_idle hc).later (horderly.lawful.error hs ht h).later
    have hkept := horderly.kept c hs ht (session_kept hc)
    rw [Act.course_of_error h] at hkept
    refine ⟨raised, hr.failed e rfl, ⟨hr.path, hr.unwound.path⟩, hidle, ?_, ?_, hr.unwound.cells,
      hr.unwound.bags, hkept⟩
    · intro d t hd
      rcases hr.unwound.bindings d with heq | ⟨-, heq⟩
      · rw [← heq] at hd
        exact absurd hd (hidle d t)
      · exact heq
    · intro d hd
      rcases hr.unwound.bindings d with heq | ⟨⟨t, ht⟩, -⟩
      · exact heq
      · exact absurd ht (hd t)
  unpublished hx := resolve?_eq_error hx
  retried {cell calls candidate rule ctx opts slot} hcell := by
    obtain ⟨f, hf⟩ := exists_finds p rule candidate ctx opts
    refine ⟨f, hf, fun more c₂ h₂ within r c₃ hr => ?_, ?_⟩
    · obtain ⟨_, hcell₂, slot₂, calls₂, rfl, -⟩ := (later_of_session hc h h₂).cells cell _ hcell
      obtain ⟨o, rfl, ho⟩ := resolve?_idle (lawful_performAll p within) hsrc (session_sound h₂)
        (session_hosts h₂) (session_idle h₂) hcell₂ hr
      have hvalue := finds_unique hf ho
      exact congrArg some hvalue
    · exact fun _ _ _ hc₂ _ _ _ hcell₂ _ => gives_reliable hsrc hf hc₂ hcell₂

/-- An old entity, and an inner one whose binder forces the outer one, which fails at first. -/
def shaky : Program where
  entities :=
    [⟨0, "Outer", .type, none, .plain, .source false false ⟨[], 1⟩⟩,
      ⟨1, "Inner", .method, some 0, .plain,
        .source false false ⟨[.guarded (.push "check" "bag"), .uncaught (.force 0)], 0⟩⟩,
      ⟨2, "Old", .method, none, ⟨some .plain, false⟩, .source false false .plain⟩]

/-- A check of the old entity, from inside the inner one. -/
def shakySteps : List Step := [.guarded (.check "check" .deprecation 2 innerSite .standard)]

/-- Where the session goes on from after that. -/
def shakyCourse : Course :=
  (performAll shaky 3 topLevel shakySteps).course ⟨World.initial shaky, []⟩

/-- A resolution of the check. -/
def shakyCheck : Act Answer := answer shaky (performAll shaky 2) topLevel (.resolve "check")

/-- The first resolution of the check completes the old entity, and starts both binders in vain. -/
theorem session_recovers_shaky :
    shaky.Sourced ∧
      ∃ c c', shaky.session 3 shakySteps = .ok ⟨⟩ c ∧
        answer shaky (performAll shaky 2) topLevel (.resolve "check") c =
          .error (.failure (.binderFailed 0)) c' ∧
        Recovers shaky 2 shakySteps (.resolve "check") 0 c c' ∧
        c'.now.bindings 0 = ⟨.notStarted, 1⟩ ∧ c'.now.bindings 1 = ⟨.notStarted, 1⟩ ∧
        (c'.now.bindings 2).isFinished = true ∧ c'.now.bags "bag" = [0] := by
  have hsrc : shaky.Sourced := by
    intro e he
    simp only [shaky, List.length_cons, List.length_nil] at he
    interval_cases e <;> exact ⟨_, _, _, rfl⟩
  have hends : (performAll shaky 3 topLevel shakySteps).interruption? ⟨World.initial shaky, []⟩ =
      none := by cbv
  have hfails : shakyCheck.interruption? shakyCourse = some (.failure (.binderFailed 0)) := by cbv
  have hnow : ((shakyCheck.course shakyCourse).now.bindings 0,
      (shakyCheck.course shakyCourse).now.bindings 1,
      ((shakyCheck.course shakyCourse).now.bindings 2).isFinished,
      (shakyCheck.course shakyCourse).now.bags "bag") =
        (⟨.notStarted, 1⟩, ⟨.notStarted, 1⟩, true, [0]) := by cbv
  obtain ⟨h₀, hrest⟩ := Prod.mk.inj hnow
  obtain ⟨h₁, hrest⟩ := Prod.mk.inj hrest
  obtain ⟨h₂, hbag⟩ := Prod.mk.inj hrest
  obtain ⟨⟨⟩, hsession⟩ := Act.eq_ok_of_interruption? hends
  have hanswer := Act.eq_error_of_interruption? hfails
  exact ⟨hsrc, shakyCourse, shakyCheck.course shakyCourse, hsession, hanswer,
    session_recovers hsrc hsession hanswer, h₀, h₁, h₂, hbag⟩

end Session
end Deferral
