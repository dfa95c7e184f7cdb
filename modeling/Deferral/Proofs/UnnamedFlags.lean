/-
# Flags that no rule names

A rule looks at a site through its own flags, so two flag sets that agree on every flag that occurs
in some rule get the same verdict. A check asks for the verdict and for nothing else of the flags:
under either set it takes the same course, forces the same entities, and comes to a decision or not.

Only the report shows more. It carries the flags, and where warnings about generated code are
lowered it tells generated code from other code, even if no rule does.

Key definitions: `Policy.Agrees`, `Options.LowersApart`, `Diagnostic.AlikeUnder`,
`Finding.AlikeUnder`, `Session.SameCourse`.
Key theorems: `Policy.verdict_congr`, `Session.pursueCheck_flags`,
`Session.decideDeprecation_flags`, `Session.unnamed_flags`.
-/
import Mathlib
import Deferral.Proofs.Congruence
import Deferral.Proofs.FinalResults

namespace Deferral

/-! ### Verdicts -/

/-- The flag sets agree on every flag that occurs in some rule. -/
def Policy.Agrees (p : Policy) (f f' : SiteFlags) : Prop :=
  ∀ rule ∈ p.rules, f'.intersection rule.flags = f.intersection rule.flags

section

variable {f f' : SiteFlags}

theorem Rule.applies_congr {rule : Rule}
    (h : f'.intersection rule.flags = f.intersection rule.flags) :
    rule.applies f' = rule.applies f := by
  have hcontains : f'.contains rule.flags = f.contains rule.flags :=
    congrArg (fun g : SiteFlags => g.bits == rule.flags.bits) h
  unfold Rule.applies
  rw [hcontains]

theorem Policy.verdict_congr {p : Policy} (h : p.Agrees f f') : p.verdict f' = p.verdict f := by
  have hfind : p.rules.find? (·.applies f') = p.rules.find? (·.applies f) :=
    List.find?_congr fun rule hrule => Rule.applies_congr (h rule hrule)
  unfold Policy.verdict
  rw [hfind]

end

/-! ### Reports -/

/-- The severity of a report tells the two flag sets apart: one of them is of generated code, about
which warnings are lowered, and the report is a warning. -/
def Options.LowersApart (o : Options) (d : Deprecation) (f f' : SiteFlags) : Prop :=
  f.contains .inGeneratedCode ≠ f'.contains .inGeneratedCode ∧
    o.generatedCodeLowersWarnings = true ∧ d.isError = false

/-- The report `r` under the flags `f` and the report `r'` under `f'` differ in the flags, and in
severity only where that is lowered under one of the two. -/
structure Diagnostic.AlikeUnder (o : Options) (d : Deprecation) (f f' : SiteFlags)
    (r r' : Diagnostic) : Prop where
  code : r'.code = r.code
  message : r'.message = r.message
  primary : r'.primary = r.primary
  subject : r'.subject = r.subject
  notes : r'.notes = r.notes
  flags : r.flags = f ∧ r'.flags = f'
  severity : ¬ o.LowersApart d f f' → r'.severity = r.severity
  lowered : o.LowersApart d f f' →
    r.severity = (if f.contains .inGeneratedCode then .note else .warning) ∧
      r'.severity = if f'.contains .inGeneratedCode then .note else .warning

/-- Nothing to report under either flag set, or a report under both. -/
inductive Finding.AlikeUnder (o : Options) (d : Deprecation) (f f' : SiteFlags) :
    Finding → Finding → Prop where
  | void : AlikeUnder o d f f' .void .void
  | report {r r' : Diagnostic} (h : r.AlikeUnder o d f f' r') :
      AlikeUnder o d f f' (.report r) (.report r')

theorem Deprecation.severity_of_lowersApart {o : Options} {d : Deprecation} {f f' : SiteFlags}
    (h : o.LowersApart d f f') (g : SiteFlags) :
    d.severity o g = if g.contains .inGeneratedCode then .note else .warning := by
  obtain ⟨-, hlowers, hwarning⟩ := h
  simp [Deprecation.severity, hlowers, hwarning]

theorem Deprecation.severity_of_not_lowersApart {o : Options} {d : Deprecation}
    {f f' : SiteFlags} (h : ¬ o.LowersApart d f f') : d.severity o f' = d.severity o f := by
  unfold Deprecation.severity
  by_cases hwarning : d.isError = true
  · rw [if_pos hwarning, if_pos hwarning]
  · by_cases hlowers : o.generatedCodeLowersWarnings = true
    · have hsame : f'.contains .inGeneratedCode = f.contains .inGeneratedCode := by
        by_contra hne
        exact h ⟨Ne.symm hne, hlowers, Bool.eq_false_iff.mpr hwarning⟩
      rw [hsame]
    · rw [Bool.eq_false_iff.mpr hlowers, Bool.false_and, Bool.false_and]

theorem deprecationReport_alike (o : Options) (e : Named) (d : Option Deprecation)
    (f f' : SiteFlags) (site : Span) :
    (deprecationReport o e d f site).AlikeUnder o (d.getD .plain) f f'
      (deprecationReport o e d f' site) where
  code := rfl
  message := rfl
  primary := rfl
  subject := rfl
  notes := rfl
  flags := ⟨rfl, rfl⟩
  severity := Deprecation.severity_of_not_lowersApart
  lowered h := ⟨Deprecation.severity_of_lowersApart h f, Deprecation.severity_of_lowersApart h f'⟩

/-! ### Pursuits -/

section

variable {ε : Type} {f : SiteFlags} {r : Reference ε}
variable {m : Type → Type} [Monad m] (h : Host m ε) {rule : View ε → Reference ε → Standing}
variable (hrule : ∀ v, rule v { r with flags := f } = rule v r)
include hrule

/-- The forcing loop sees the flags of a reference through its rule. -/
theorem pursueFrom_flags (remaining rounds : Nat) :
    pursueFrom h rule { r with flags := f } remaining rounds =
      pursueFrom h rule r remaining rounds := by
  induction remaining using Nat.strongRecOn generalizing rounds with
  | ind remaining ih =>
    rw [pursueFrom.eq_1 h rule r, pursueFrom.eq_1 h rule { r with flags := f }]
    refine bind_congr fun v => ?_
    rw [hrule]
    dsimp only
    split
    · rfl
    · refine bind_congr fun _ => bind_congr fun _ => bind_congr fun after => ?_
      by_cases hlt : unfinishedCount after r < remaining
      · rw [if_pos hlt]
        exact (if_pos hlt).trans (ih _ hlt _)
      · rw [if_neg hlt]
        exact if_neg hlt

theorem pursue_flags : pursue h rule { r with flags := f } = pursue h rule r :=
  bind_congr fun _ => pursueFrom_flags h hrule _ _

end

namespace Session

section

variable {ε : Type} {o : Options} {f : SiteFlags} {r : Reference ε}

/-- A rule sees flags only as exempt or not. -/
theorem CheckRule.standing_flags (rule : CheckRule) (h : rule.exempts o f = rule.exempts o r.flags)
    (v : View ε) : rule.standing o v { r with flags := f } = rule.standing o v r := by
  rw [rule.standing_eq, rule.standing_eq, h]

end

section

variable {p : Program} {run : Runner} {at_ : Scope} {candidate : Nat} {ctx : Context}
variable {opts : Options} {f : SiteFlags}

/-- The pursuit of a check is the same under flags that are exempt alike. -/
theorem pursueCheck_flags (rule : CheckRule)
    (h : rule.exempts opts f = rule.exempts opts ctx.flags) :
    pursueCheck p run at_ rule candidate { ctx with flags := f } opts =
      pursueCheck p run at_ rule candidate ctx opts := by
  have hrule : ∀ v : View Nat,
      rule.standing opts v { p.reference candidate ctx with flags := f } =
        rule.standing opts v (p.reference candidate ctx) := rule.standing_flags h
  have hpursue : ∀ name, pursue (host p run at_ name) (rule.standing opts)
      (p.reference candidate { ctx with flags := f }) =
        pursue (host p run at_ name) (rule.standing opts) (p.reference candidate ctx) :=
    fun name => pursue_flags (host p run at_ name) hrule
  unfold pursueCheck
  simp only [hpursue]

end

/-! ### Checks -/

/-- Both come to related answers, or break off alike, and have taken the very same course. -/
inductive SameCourse {α β : Type} (R : World → α → β → Prop) :
    EStateM.Result Interruption Course α → EStateM.Result Interruption Course β → Prop where
  | ok {a : α} {b : β} {c : Course} (answers : R c.now a b) : SameCourse R (.ok a c) (.ok b c)
  | error (x : Interruption) (c : Course) : SameCourse R (.error x c) (.error x c)

section

variable {α β γ : Type} {R : World → α → β → Prop}

theorem SameCourse.eq_ok {a : α} {c : Course} {r : EStateM.Result Interruption Course β}
    (h : SameCourse R (.ok a c) r) : ∃ b, r = .ok b c ∧ R c.now a b := by
  cases h with
  | ok answers => exact ⟨_, rfl, answers⟩

/-- After the same action, the courses stay the same if they do from there. -/
theorem SameCourse.bind (x : Act γ) {f : γ → Act α} {g : γ → Act β}
    (h : ∀ a c, SameCourse R (f a c) (g a c)) (c : Course) :
    SameCourse R ((x >>= f) c) ((x >>= g) c) := by
  cases hc : x c with
  | ok a c₁ =>
    rw [Act.bind_of_ok hc, Act.bind_of_ok hc]
    exact h a c₁
  | error e c₁ =>
    rw [Act.bind_of_error hc, Act.bind_of_error hc]
    exact .error e c₁

/-- What a span adds to the trace is no matter to the answers. -/
theorem SameCourse.inSpan (at_ : Scope) (name : String) (fields : List (String × FieldValue))
    {x : Act α} {y : Act β} (hlog : ∀ (w : World) log a b, R w a b → R { w with log } a b)
    (h : ∀ c, SameCourse R (x c) (y c)) (c : Course) :
    SameCourse R (inSpan at_ name fields x c) (Session.inSpan at_ name fields y c) := by
  obtain ⟨c₁, log₁, h₁, hnow₁⟩ := emit_runs at_ ⟨.span, name, fields⟩ c
  have hends := h c₁
  generalize hx : x c₁ = r at hends
  generalize hy : y c₁ = r' at hends
  cases hends with
  | @ok a b c₂ answers =>
    obtain ⟨c₃, log₃, h₃, hnow₃⟩ := emit_runs at_ ⟨.exit, name, []⟩ c₂
    rw [inSpan_of_ok h₁ hx h₃, inSpan_of_ok h₁ hy h₃]
    refine .ok ?_
    rw [hnow₃]
    exact hlog _ _ _ _ answers
  | error e c₂ =>
    obtain ⟨c₃, log₃, h₃, hnow₃⟩ := emit_runs at_ ⟨.exit, name, []⟩ c₂
    rw [inSpan_of_error h₁ hx h₃, inSpan_of_error h₁ hy h₃]
    exact .error e c₃

end

/-- The deprecation of an entity that a report is made from. -/
def World.metadata (w : World) (p : Program) (e : Nat) : Deprecation :=
  (w.visible p e).deprecation.getD .plain

/-- A check is decided under both flag sets, with outcomes that are alike, or under neither. -/
def CheckedAlike (p : Program) (candidate : Nat) (opts : Options) (f f' : SiteFlags) (w : World) :
    Option Finding → Option Finding → Prop :=
  Option.Rel (Finding.AlikeUnder opts (w.metadata p candidate) f f')

theorem CheckedAlike.report {p : Program} {candidate : Nat} {opts : Options} {f f' : SiteFlags}
    {w : World} {r : Diagnostic} {answer : Option Finding}
    (h : CheckedAlike p candidate opts f f' w (some (.report r)) answer) :
    ∃ r', answer = some (.report r') ∧
      r.AlikeUnder opts (w.metadata p candidate) f f' r' := by
  cases h with
  | some hfinding =>
    cases hfinding with
    | report halike => exact ⟨_, rfl, halike⟩

section

variable {p : Program} {run : Runner} {at_ : Scope} {candidate : Nat} {ctx : Context}
variable {opts : Options} {f : SiteFlags}

theorem exempts_flags (h : opts.policy.Agrees ctx.flags f) :
    CheckRule.deprecation.exempts opts f =
      CheckRule.deprecation.exempts opts ctx.flags := by
  unfold CheckRule.exempts
  dsimp only
  rw [Policy.verdict_congr h]

theorem diagnose_alike (w : World) (candidate : Nat) (ctx : Context) (opts : Options)
    (f : SiteFlags) :
    (diagnose p w candidate ctx opts).AlikeUnder opts (w.metadata p candidate) ctx.flags f
      (diagnose p w candidate { ctx with flags := f } opts) :=
  deprecationReport_alike _ _ _ _ _ _

theorem decideDeprecation_flags (h : opts.policy.Agrees ctx.flags f) (c : Course) :
    SameCourse (CheckedAlike p candidate opts ctx.flags f)
      (decideDeprecation p run at_ candidate ctx opts c)
      (decideDeprecation p run at_ candidate { ctx with flags := f } opts c) := by
  have hpursue : pursueCheck p run at_ .deprecation candidate { ctx with flags := f } opts =
      pursueCheck p run at_ .deprecation candidate ctx opts :=
    pursueCheck_flags .deprecation (exempts_flags h)
  unfold decideDeprecation
  rw [hpursue]
  refine SameCourse.inSpan at_ _ _ (fun w log _ _ hab => hab) (SameCourse.bind _ fun s c => ?_) c
  cases s with
  | none => exact .ok .none
  | some s =>
    refine SameCourse.bind _ (fun _ c => ?_) c
    cases s.1 with
    | reportable => exact .ok (.some (.report (diagnose_alike c.now candidate ctx opts f)))
    | inapplicable => exact .ok (.some .void)

/-- What two checks come to in the end, under flags that agree on the policy. -/
theorem finds_flags (h : opts.policy.Agrees ctx.flags f) {found found' : Finding}
    (hfound : p.Finds .deprecation candidate ctx opts found)
    (hfound' : p.Finds .deprecation candidate { ctx with flags := f } opts found') :
    found.AlikeUnder opts ((p.final candidate).deprecation.getD .plain) ctx.flags f found' := by
  have hreports : CheckRule.deprecation.Reports opts p.final
      (p.reference candidate { ctx with flags := f }) ↔
        CheckRule.deprecation.Reports opts p.final (p.reference candidate ctx) := by
    rw [CheckRule.reports_iff, CheckRule.reports_iff]
    show _ ∧ CheckRule.deprecation.exempts opts f = false ∧ _ ↔ _
    rw [exempts_flags h]
    rfl
  unfold Program.Finds at hfound hfound'
  rw [hreports] at hfound'
  rcases hfound with ⟨hr, rfl⟩ | ⟨hr, rfl⟩
  · rcases hfound' with ⟨-, rfl⟩ | ⟨hr', -⟩
    · exact .report (deprecationReport_alike _ _ _ _ _ _)
    · exact absurd hr hr'
  · rcases hfound' with ⟨hr', -⟩ | ⟨-, rfl⟩
    · exact absurd hr' hr
    · exact .void

end

/-- **Flags that no rule names cannot change the outcome.** Let two flag sets agree on every flag
that occurs in some rule. From any state, the two checks of a reference under them take the same
course, with the same demands and the same world in the end. Both fail alike, both stay undecided,
or both decide, and then both find nothing to report or both find reports that differ in the flags
alone; or in severity as well, if just one of the sets is of generated code, about which warnings
are lowered, and the report is a warning. And so it is with what is memoized for two such checks, at
whatever moments of whatever sessions. -/
theorem unnamed_flags (p : Program) (candidate : Nat) (ctx : Context) (opts : Options)
    (f : SiteFlags) (h : opts.policy.Agrees ctx.flags f) :
    (∀ (run : Runner) (at_ : Scope) (call call' : Nat) (c : Course),
      SameCourse (CheckedAlike p candidate opts ctx.flags f)
        (compute p run at_ call (.check .deprecation candidate ctx opts) c)
        (compute p run at_ call' (.check .deprecation candidate { ctx with flags := f } opts) c)) ∧
    ∀ (depth depth' : Nat) (steps steps' : List Step), ∀ w ∈ p.moments depth steps,
      ∀ w' ∈ p.moments depth' steps', ∀ (i i' : Nat) (o o' : Shared Finding),
        w.Memoized i .deprecation candidate ctx opts o →
        w'.Memoized i' .deprecation candidate { ctx with flags := f } opts o' →
          o.value.AlikeUnder opts ((p.final candidate).deprecation.getD .plain) ctx.flags f
            o'.value := by
  refine ⟨fun run at_ call call' c => decideDeprecation_flags h c, ?_⟩
  intro depth depth' steps steps' w hw w' hw' i i' o o' hm hm'
  exact finds_flags h ((sound_of_mem_moments hw).finds hm) ((sound_of_mem_moments hw').finds hm')

/-- The same site in generated code and a documentation comment, with a flag that has no name. -/
def generatedSite : Context := { openSite with flags := ⟨0x8018⟩ }

/-- What a check of the old entity at a site finds. -/
def checkOld (ctx : Context) : Act (Option Finding) :=
  compute nested (performAll nested 1) ⟨mainThread, []⟩ 0 (.check .deprecation 2 ctx .standard)

/-- Checks of the old entity at both sites are resolved. -/
def bothSites : List Step :=
  [.guarded (.check "plain" .deprecation 2 openSite .standard),
    .guarded (.check "generated" .deprecation 2 generatedSite .standard),
    .guarded (.resolve "plain"), .guarded (.resolve "generated")]

/-- Both checks force the old entity and report it, the one as a warning and the other as a note.
So do the checks of a session. -/
theorem unnamed_flags_generated :
    Options.standard.policy.Agrees openSite.flags generatedSite.flags ∧
      Options.standard.LowersApart .plain openSite.flags generatedSite.flags ∧
      (∃ r r' c, checkOld openSite ⟨World.initial nested, []⟩ = .ok (some (.report r)) c ∧
        checkOld generatedSite ⟨World.initial nested, []⟩ = .ok (some (.report r')) c ∧
        c.now.demands = [2] ∧ r.severity = .warning ∧ r'.severity = .note) ∧
      ∃ w ∈ nested.moments 2 bothSites, ∃ o o',
        w.Memoized 0 .deprecation 2 openSite .standard o ∧
          w.Memoized 1 .deprecation 2 generatedSite .standard o' ∧
          o.value ≠ .void ∧ o.value.AlikeUnder .standard .plain openSite.flags
            generatedSite.flags o'.value := by
  have hagrees : Options.standard.policy.Agrees openSite.flags generatedSite.flags := by
    unfold Policy.Agrees
    decide
  have hapart : Options.standard.LowersApart .plain openSite.flags generatedSite.flags := by
    unfold Options.LowersApart
    decide
  obtain ⟨hcompute, hmemoized⟩ :=
    unnamed_flags nested 2 openSite .standard generatedSite.flags hagrees
  refine ⟨hagrees, hapart, ?_, ?_⟩
  · have hanswer : (checkOld openSite).answer? ⟨World.initial nested, []⟩ =
        some (some (.report (nested.report 2 openSite .standard .deprecation))) := by cbv
    have hdemands : ((checkOld openSite).course ⟨World.initial nested, []⟩).now.demands = [2] := by
      cbv
    have hends : SameCourse (CheckedAlike nested 2 .standard openSite.flags generatedSite.flags)
        (checkOld openSite ⟨World.initial nested, []⟩)
        (checkOld generatedSite ⟨World.initial nested, []⟩) := hcompute _ _ 0 0 _
    have hplain := Act.eq_ok_of_answer? hanswer
    have hmetadata : ((checkOld openSite).course ⟨World.initial nested, []⟩).now.metadata nested 2 =
        .plain := by cbv
    rw [hplain] at hends
    obtain ⟨answer, hgenerated, hanswers⟩ := hends.eq_ok
    obtain ⟨r', rfl, halike⟩ := hanswers.report
    rw [hmetadata] at halike
    obtain ⟨hwarning, hnote⟩ := halike.lowered hapart
    have hopen : openSite.flags.contains .inGeneratedCode = false := by decide
    have hinside : generatedSite.flags.contains .inGeneratedCode = true := by decide
    rw [hopen] at hwarning
    rw [hinside] at hnote
    exact ⟨_, r', _, hplain, hgenerated, hdemands, hwarning, hnote⟩
  · have hcells : (nested.moments 2 bothSites).head?.map (·.cells) = some
        [.deferred (.check .deprecation 2 openSite .standard)
          ⟨some ⟨1, .report (nested.report 2 openSite .standard .deprecation)⟩, 0⟩ 1,
        .deferred (.check .deprecation 2 generatedSite .standard)
          ⟨some ⟨2, .report (nested.report 2 generatedSite .standard .deprecation)⟩, 0⟩ 1] := by cbv
    obtain ⟨w, hw, hc⟩ := Option.map_eq_some_iff.mp hcells
    have hmem : w ∈ nested.moments 2 bothSites := List.mem_of_head? hw
    have hplain : w.Memoized 0 .deprecation 2 openSite .standard _ :=
      ⟨_, _, congrArg (·[0]?) hc, rfl⟩
    have hgenerated : w.Memoized 1 .deprecation 2 generatedSite .standard _ :=
      ⟨_, _, congrArg (·[1]?) hc, rfl⟩
    have hfinal : (nested.final 2).deprecation.getD .plain = .plain := rfl
    have halike := hmemoized 2 2 bothSites bothSites w hmem w hmem 0 1 _ _ hplain hgenerated
    rw [hfinal] at halike
    refine ⟨w, hmem, _, _, hplain, hgenerated, ?_, halike⟩
    exact Finding.noConfusion

end Session
end Deferral
