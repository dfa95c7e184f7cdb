/-
# Recording a reference now or checking it later

A reference is recorded as it stands now: as nothing, as a diagnostic, or as a check. It may also
always be recorded as a check, whatever it stands as. Two sessions that differ in this alone make
different diagnostics, but what each of the second session is to the first can be said: the same
diagnostic, or a check of a reference that the first session has decided already. Here this is
said of two worlds, and of what a single change of either of them does to it.

Key definitions: `Session.Postponed`, `Session.Program.Postpones`, `Session.Corresponds`,
`Session.World.Tallies`, `Session.Link`, `Session.Matched`.
Key theorems: `Session.Matched.quiet`, `Session.Matched.addCell`, `Session.Matched.setCell`.
-/
import Deferral.Proofs.Plain
import Deferral.Proofs.Stable
import Deferral.Proofs.Forced

namespace Deferral
namespace Session

/-! ### Postponed checks -/

/-- The names of diagnostics that an action gives or looks up. -/
def Action.diags : Action → List String
  | .check diag _ _ _ _ => [diag]
  | .constant diag _ => [diag]
  | .known diag _ => [diag]
  | .scripted diag _ _ => [diag]
  | .resolveOrVoid diag => [diag]
  | .resolve diag => [diag]
  | .peek diag => [diag]
  | .isResolved diag => [diag]
  | .push diag _ => [diag]
  | .describeDiagnostic diag => [diag]
  | .race diag _ => [diag]
  | _ => []

/-- The same step with another action. -/
def Step.doing : Step → Action → Step
  | .guarded _, a => .guarded a
  | .uncaught _, a => .uncaught a

/-- The second steps are the first ones, but some references are not recorded: a check is made
instead, under a name of its own, and put into the bag. -/
inductive Postponed (fresh : String → Prop) : List Step → List Step → Prop
  | nil : Postponed fresh [] []
  | keep {s : Step} {ss ss' : List Step} (plain : s.action.isPlain = true)
      (names : ∀ n ∈ s.action.diags, ¬ fresh n) (rest : Postponed fresh ss ss') :
      Postponed fresh (s :: ss) (s :: ss')
  | scripted {s : Step} {diag : String} {plan : Plan} {during during' ss ss' : List Step}
      (name : ¬ fresh diag) (nested : Postponed fresh during during')
      (rest : Postponed fresh ss ss') :
      Postponed fresh (s.doing (.scripted diag plan during) :: ss)
        (s.doing (.scripted diag plan during') :: ss')
  | postpone {s : Step} {candidate : Nat} {ctx : Context} {opts : Options} {bag n : String}
      {ss ss' : List Step} (name : fresh n) (rest : Postponed fresh ss ss') :
      Postponed fresh (s.doing (.recordReference candidate ctx opts bag) :: ss)
        (.guarded (.check n .deprecation candidate ctx opts) :: .guarded (.push n bag) :: ss')

/-- The second computation is the first one, with postponed checks in its steps. -/
inductive Computation.Postponed (fresh : String → Prop) : Computation → Computation → Prop
  | check (rule : CheckRule) (candidate : Nat) (ctx : Context) (opts : Options) :
      Computation.Postponed fresh (.check rule candidate ctx opts) (.check rule candidate ctx opts)
  | constant (f : Finding) : Computation.Postponed fresh (.constant f) (.constant f)
  | scripted {name : String} {plan : Plan} {during during' : List Step}
      (nested : Session.Postponed fresh during during') :
      Computation.Postponed fresh (.scripted name plan during) (.scripted name plan during')

/-- The second program is the first one, with postponed checks in its binders. -/
structure Program.Postpones (fresh : String → Prop) (p p' : Program) : Prop where
  alike : p.Alike p'
  binders : ∀ {e wrapped completed binder},
    (p.entity e).behaviour = .source wrapped completed binder →
      ∃ binder', (p'.entity e).behaviour = .source wrapped completed binder' ∧
        binder'.failures = binder.failures ∧ Postponed fresh binder.steps binder'.steps

/-! ### Histories -/

/-- Two histories correspond, latest moments first: from moments that are related, either history
goes on or both do, to moments that are related again. -/
inductive Corresponds {σ τ : Type} (A : σ → τ → Prop) : List σ → List τ → Prop
  | start {w : σ} {w' : τ} (h : A w w') : Corresponds A [w] [w']
  | left {w : σ} {w' : τ} {ws : List σ} {ws' : List τ} (h : A w w')
      (hs : Corresponds A ws (w' :: ws')) : Corresponds A (w :: ws) (w' :: ws')
  | right {w : σ} {w' : τ} {ws : List σ} {ws' : List τ} (h : A w w')
      (hs : Corresponds A (w :: ws) ws') : Corresponds A (w :: ws) (w' :: ws')
  | both {w : σ} {w' : τ} {ws : List σ} {ws' : List τ} (h : A w w')
      (hs : Corresponds A ws ws') : Corresponds A (w :: ws) (w' :: ws')

/-- The diagnostics that a walk over a bag has answered. -/
def Answer.reported? : Answer → Option (List Diagnostic)
  | .reported ds _ => some ds
  | _ => none

/-- The diagnostics that are reported in an entry of a log, and by a step within what. -/
def Entry.collected? : Entry → Option (List String × List Diagnostic)
  | .step _ within a => a.reported?.map fun ds => (within, ds)
  | .trace _ => none

/-- What was reported in a log, latest report first. -/
def collected (log : List Entry) : List (List String × List Diagnostic) :=
  log.filterMap Entry.collected?

/-- How far each entity is completed, what was demanded and what was reported is the same. -/
structure World.Tallies (w w' : World) : Prop where
  bindings : w'.bindings = w.bindings
  demands : w'.demands = w.demands
  collected : collected w'.log = collected w.log

namespace Corresponds

variable {A : World → World → Prop} {w : World} {c c' c₁ : Course}

/-- The second history goes on alone. -/
theorem right_of_through (h : Corresponds A c.worlds c'.worlds)
    (ht : c'.Through (A c.now) c₁) : Corresponds A c.worlds c₁.worlds := by
  obtain ⟨ws, hws, hall⟩ := ht
  rw [hws]
  clear hws
  induction ws with
  | nil => exact h
  | cons w ws ih =>
    have hrest : Corresponds A c.worlds (ws ++ c'.worlds) :=
      ih fun v hv => hall v (List.mem_cons_of_mem _ hv)
    exact .right (hall w List.mem_cons_self) hrest

/-- The first history goes on alone. -/
theorem left_of_through (h : Corresponds A c.worlds c'.worlds)
    (ht : c.Through (A · c'.now) c₁) : Corresponds A c₁.worlds c'.worlds := by
  obtain ⟨ws, hws, hall⟩ := ht
  rw [hws]
  clear hws
  induction ws with
  | nil => exact h
  | cons w ws ih =>
    have hrest : Corresponds A (ws ++ c.worlds) c'.worlds :=
      ih fun v hv => hall v (List.mem_cons_of_mem _ hv)
    exact .left (hall w List.mem_cons_self) hrest

end Corresponds

/-! ### What is seen in both sessions -/

variable {p p' : Program} {fresh : String → Prop} {w w' w₁ w₁' : World} {t : Thread} {e : Nat}

theorem finished_congr (hb : w'.bindings = w.bindings) (hd : w'.demands = w.demands) :
    w'.finished p = w.finished p := by
  funext e
  unfold World.finished
  rw [hb, hd]

theorem visible_congr (hb : w'.bindings = w.bindings) (hd : w'.demands = w.demands) (e : Nat) :
    w'.visible p e = w.visible p e := by
  unfold World.visible
  rw [hb, finished_congr hb hd]

theorem view_congr (hb : w'.bindings = w.bindings) (hd : w'.demands = w.demands) :
    w'.view p t = w.view p t := by
  have hf := finished_congr (p := p) hb hd
  have hc : w'.completingOn p t = w.completingOn p t := by
    funext e
    unfold World.completingOn
    rw [hb, hf]
  simp only [World.view, hf, hc, visible_congr hb hd]

theorem World.Tallies.view (h : w.Tallies w') (ha : p.Alike p') :
    w'.view p' t = w.view p t := by
  rw [ha.view, view_congr h.bindings h.demands]

theorem World.Tallies.visible (h : w.Tallies w') (ha : p.Alike p') (e : Nat) :
    w'.visible p' e = w.visible p e := by
  rw [ha.visible, visible_congr h.bindings h.demands]

theorem World.Tallies.diagnose (h : w.Tallies w') (ha : p.Alike p') (candidate : Nat)
    (ctx : Context) (opts : Options) :
    diagnose p' w' candidate ctx opts = diagnose p w candidate ctx opts := by
  rw [ha.diagnose]
  unfold Session.diagnose
  rw [visible_congr h.bindings h.demands]

/-- Where an entity is not completed by a binder, it is never finished. -/
theorem Program.Sourced.isSource_of_finished (h : p.Sourced) (hf : w.finished p e = true) :
    p.IsSource e := by
  rcases h.source_or_absent e with he | habsent
  · exact he
  · simp [World.finished, habsent, Entity.absent] at hf

/-- What is complete stays complete. -/
theorem extends_of_complete (hp : p.Sourced)
    (h : ∀ e d, (w.bindings e).completion = .complete d →
      (w₁.bindings e).completion = .complete d) :
    (w.view p t).Extends (w₁.view p t) := by
  have hcomplete : ∀ e, w.finished p e = true → p.IsSource e ∧
      ∃ d, (w.bindings e).completion = .complete d ∧ (w₁.bindings e).completion = .complete d := by
    intro e hf
    have hsrc := hp.isSource_of_finished hf
    have hseen : (w.view p t).finished e = (w.bindings e).isFinished := World.view_finished hsrc
    have hfin : (w.bindings e).isFinished = true := hseen.symm.trans hf
    cases hc : (w.bindings e).completion with
    | notStarted => simp [Binding.isFinished, Completion.data?, hc] at hfin
    | inProgress u => simp [Binding.isFinished, Completion.data?, hc] at hfin
    | complete d => exact ⟨hsrc, d, rfl, h e d hc⟩
  constructor
  · intro e hf
    obtain ⟨hsrc, d, -, hd⟩ := hcomplete e hf
    rw [World.view_finished hsrc]
    simp [Binding.isFinished, Completion.data?, hd]
  · intro e hf
    obtain ⟨hsrc, d, hd, hd₁⟩ := hcomplete e hf
    show w₁.visible p e = w.visible p e
    rw [World.visible_source hsrc, World.visible_source hsrc, hd, hd₁]

/-- Where a reference to a possibly deprecated entity stands. -/
def Program.standingIn (p : Program) (w : World) (candidate : Nat) (ctx : Context)
    (opts : Options) : Standing :=
  deprecationStanding opts (w.view p mainThread) (p.reference candidate ctx)

theorem standingIn_stable {candidate : Nat} {ctx : Context} {opts : Options} {d : Decision}
    (h : (w.view p mainThread).Extends (w₁.view p mainThread))
    (hd : (p.standingIn w candidate ctx opts).decision? = some d) :
    p.standingIn w₁ candidate ctx opts = p.standingIn w candidate ctx opts :=
  CheckRule.deprecation.standing_stable (o := opts) h hd

/-- The diagnostic for a reference that is reportable stays the same. -/
theorem diagnose_stable {candidate : Nat} {ctx : Context} {opts : Options}
    (h : (w.view p mainThread).Extends (w₁.view p mainThread))
    (hd : p.standingIn w candidate ctx opts = .reportable) :
    diagnose p w₁ candidate ctx opts = diagnose p w candidate ctx opts := by
  have hdecided : (CheckRule.deprecation.standing opts (w.view p mainThread)
      (p.reference candidate ctx)).decision? = some .reportable := by
    rw [show CheckRule.deprecation.standing opts (w.view p mainThread)
      (p.reference candidate ctx) = .reportable from hd]
    rfl
  have hattributes : w₁.visible p candidate = w.visible p candidate :=
    h.attributes candidate (CheckRule.deprecation.finished_of_decided hdecided)
  unfold diagnose
  rw [hattributes]

/-! ### Links -/

/-- What a diagnostic of the second session is to the first. -/
inductive Link where
  /-- It is computed in both sessions. -/
  | deferred (cell : Nat) (there here : Computation)
  /-- It is known in both. -/
  | known (cell : Nat)
  /-- It checks a reference that was reportable when it was recorded in the first. -/
  | decided (cell : Nat) (candidate : Nat) (ctx : Context) (opts : Options)
  /-- It checks a reference that was not reportable, of which nothing is recorded in the first. -/
  | silent (candidate : Nat) (ctx : Context) (opts : Options)

/-- The number of the diagnostic in the first session. -/
def Link.cell? : Link → Option Nat
  | .deferred i _ _ => some i
  | .known i => some i
  | .decided i _ _ _ => some i
  | .silent _ _ _ => none

/-- The link tells what the diagnostic with number `here` of the second world is to the first. -/
def Link.Holds (p : Program) (fresh : String → Prop) (w w' : World) (here : Nat) : Link → Prop
  | .deferred i comp comp' =>
    comp.Postponed fresh comp' ∧ ∃ slot slot' calls,
      w.cells[i]? = some (.deferred comp slot calls) ∧
        w'.cells[here]? = some (.deferred comp' slot' calls) ∧
        slot'.stored.map (·.value) = slot.stored.map (·.value)
  | .known i => ∃ o o', w.cells[i]? = some (.known o) ∧ w'.cells[here]? = some (.known o') ∧
      o'.value = o.value
  | .decided i candidate ctx opts => ∃ o slot calls,
      w.cells[i]? = some (.known o) ∧
        w'.cells[here]? = some (.deferred (.check .deprecation candidate ctx opts) slot calls) ∧
        p.standingIn w candidate ctx opts = .reportable ∧
        o.value = .report (diagnose p w candidate ctx opts) ∧
        ∀ o', slot.stored = some o' → o'.value = o.value
  | .silent candidate ctx opts => ∃ slot calls,
      w'.cells[here]? = some (.deferred (.check .deprecation candidate ctx opts) slot calls) ∧
        p.standingIn w candidate ctx opts = .inapplicable ∧
        ∀ o', slot.stored = some o' → o'.value = .void

/-- What a link tells stays true while its diagnostics stay as they are. -/
theorem Link.Holds.extend {l : Link} {here : Nat} (h : l.Holds p fresh w w' here)
    (hext : (w.view p mainThread).Extends (w₁.view p mainThread))
    (hc : ∀ i, l.cell? = some i → w₁.cells[i]? = w.cells[i]?)
    (hc' : w₁'.cells[here]? = w'.cells[here]?) : l.Holds p fresh w₁ w₁' here := by
  cases l with
  | deferred i comp comp' =>
    obtain ⟨hcomp, slot, slot', calls, hi, hi', hvalue⟩ := h
    exact ⟨hcomp, slot, slot', calls, (hc i rfl).trans hi, hc'.trans hi', hvalue⟩
  | known i =>
    obtain ⟨o, o', hi, hi', hvalue⟩ := h
    exact ⟨o, o', (hc i rfl).trans hi, hc'.trans hi', hvalue⟩
  | decided i candidate ctx opts =>
    obtain ⟨o, slot, calls, hi, hi', hstanding, hvalue, hslot⟩ := h
    have hdecided : (p.standingIn w candidate ctx opts).decision? = some .reportable := by
      rw [hstanding]
      rfl
    refine ⟨o, slot, calls, (hc i rfl).trans hi, hc'.trans hi', ?_, ?_, hslot⟩
    · rw [standingIn_stable hext hdecided, hstanding]
    · rw [diagnose_stable hext hstanding, hvalue]
  | silent candidate ctx opts =>
    obtain ⟨slot, calls, hi', hstanding, hslot⟩ := h
    have hdecided : (p.standingIn w candidate ctx opts).decision? = some .inapplicable := by
      rw [hstanding]
      rfl
    refine ⟨slot, calls, hc'.trans hi', ?_, hslot⟩
    rw [standingIn_stable hext hdecided, hstanding]

/-- The diagnostic with number `i` of the first session and the one with number `i'` of the second
are linked. -/
def Linked (π : List Link) (i i' : Nat) : Prop := ∃ l, π[i']? = some l ∧ l.cell? = some i

/-- The second entries are the first ones, as they are linked, with checks of no consequence in
between. -/
inductive Follows (π : List Link) : List Nat → List Nat → Prop
  | nil : Follows π [] []
  | paired {i i' : Nat} {is is' : List Nat} (h : Linked π i i') (rest : Follows π is is') :
      Follows π (i :: is) (i' :: is')
  | silent {i' candidate : Nat} {ctx : Context} {opts : Options} {is is' : List Nat}
      (h : π[i']? = some (.silent candidate ctx opts)) (rest : Follows π is is') :
      Follows π is (i' :: is')

section

variable {π π₁ : List Link} {i i' : Nat} {is is' : List Nat}

theorem getElem?_mono {l : Link} (h : π <+: π₁) (hi : π[i']? = some l) : π₁[i']? = some l := by
  obtain ⟨ls, rfl⟩ := h
  obtain ⟨hlt, -⟩ := List.getElem?_eq_some_iff.mp hi
  rwa [List.getElem?_append_left hlt]

theorem Linked.mono (h : Linked π i i') (hp : π <+: π₁) : Linked π₁ i i' := by
  obtain ⟨l, hl, hi⟩ := h
  exact ⟨l, getElem?_mono hp hl, hi⟩

theorem Linked.mono_rel {a a' : Option Nat} (hp : π <+: π₁) (h : Option.Rel (Linked π) a a') :
    Option.Rel (Linked π₁) a a' := by
  cases h with
  | some hl => exact .some (hl.mono hp)
  | none => exact .none

theorem Follows.mono (h : Follows π is is') (hp : π <+: π₁) : Follows π₁ is is' := by
  induction h with
  | nil => exact .nil
  | paired h _ ih => exact .paired (h.mono hp) ih
  | silent h _ ih => exact .silent (getElem?_mono hp h) ih

theorem Follows.append {js js' : List Nat} (h : Follows π is is') (hj : Follows π js js') :
    Follows π (is ++ js) (is' ++ js') := by
  induction h with
  | nil => exact hj
  | paired h _ ih => exact .paired h ih
  | silent h _ ih => exact .silent h ih

end

/-! ### Matched worlds -/

/-- The worlds tally, and the diagnostics, names and bags of the second are to the first what the
links tell. -/
structure Matched (p : Program) (fresh : String → Prop) (π : List Link) (w w' : World) : Prop where
  tallies : w.Tallies w'
  length : π.length = w'.cells.length
  links : ∀ (i' : Nat) (l : Link), π[i']? = some l → l.Holds p fresh w w' i'
  injective : ∀ {i i' j' : Nat}, Linked π i i' → Linked π i j' → i' = j'
  names : ∀ n, ¬ fresh n → Option.Rel (Linked π) (w.names.lookup n) (w'.names.lookup n)
  bags : ∀ b, Follows π (w.bags b) (w'.bags b)

theorem matched_initial (ha : p.Alike p') :
    Matched p fresh [] (World.initial p) (World.initial p') where
  tallies :=
    { bindings := by
        funext e
        have hb := ha.behaviour e
        unfold World.initial
        dsimp only
        rw [ha.attributes]
        cases hbeh : (p.entity e).behaviour with
        | source wrapped completed binder =>
          rw [hbeh] at hb
          obtain ⟨binder', hb⟩ := hb
          rw [hb]
          cases completed with
          | true => rfl
          | false => rfl
        | stub needs here =>
          rw [hbeh] at hb
          rw [hb]
        | bare finished =>
          rw [hbeh] at hb
          rw [hb]
      demands := rfl
      collected := rfl }
  length := rfl
  links i' l h := by cases h
  injective h := by
    obtain ⟨l, hl, -⟩ := h
    cases hl
  names _ _ := .none
  bags _ := .nil

namespace Matched

variable {π : List Link} {i i' : Nat} {l : Link}

theorem lt_of_linked (h : Matched p fresh π w w') (hi : Linked π i i') : i < w.cells.length := by
  obtain ⟨l, hl, hcell⟩ := hi
  have hholds := h.links i' l hl
  cases l with
  | deferred j comp comp' =>
    cases hcell
    obtain ⟨-, slot, slot', calls, hj, -⟩ := hholds
    exact (List.getElem?_eq_some_iff.mp hj).1
  | known j =>
    cases hcell
    obtain ⟨o, o', hj, -⟩ := hholds
    exact (List.getElem?_eq_some_iff.mp hj).1
  | decided j candidate ctx opts =>
    cases hcell
    obtain ⟨o, slot, calls, hj, -⟩ := hholds
    exact (List.getElem?_eq_some_iff.mp hj).1
  | silent candidate ctx opts => cases hcell

/-- Neither diagnostics nor names nor bags change. -/
theorem quiet (h : Matched p fresh π w w') (ht : w₁.Tallies w₁')
    (hext : (w.view p mainThread).Extends (w₁.view p mainThread)) (hc : w₁.cells = w.cells)
    (hc' : w₁'.cells = w'.cells) (hn : w₁.names = w.names) (hn' : w₁'.names = w'.names)
    (hb : w₁.bags = w.bags) (hb' : w₁'.bags = w'.bags) : Matched p fresh π w₁ w₁' where
  tallies := ht
  length := by rw [h.length, hc']
  links i' l hl := (h.links i' l hl).extend hext (fun _ _ => by rw [hc]) (by rw [hc'])
  injective := h.injective
  names n hfresh := by
    rw [hn, hn']
    exact h.names n hfresh
  bags b := by
    rw [hb, hb']
    exact h.bags b

/-- A diagnostic is made in the second session, and the one that it is linked to in the first. -/
theorem addCell (h : Matched p fresh π w w') (ht : w₁.Tallies w₁')
    (hext : (w.view p mainThread).Extends (w₁.view p mainThread))
    (hc : ∀ j < w.cells.length, w₁.cells[j]? = w.cells[j]?) {d : Cell}
    (hc' : w₁'.cells = w'.cells ++ [d]) (hl : l.Holds p fresh w₁ w₁' w'.cells.length)
    (hnew : ∀ j, l.cell? = some j → w.cells.length ≤ j)
    (hn : w₁.names = w.names) (hn' : w₁'.names = w'.names) (hb : w₁.bags = w.bags)
    (hb' : w₁'.bags = w'.bags) : Matched p fresh (π ++ [l]) w₁ w₁' where
  tallies := ht
  length := by
    rw [hc', List.length_append, List.length_append, h.length]
    rfl
  links i' k hk := by
    rcases Nat.lt_or_ge i' π.length with hlt | hge
    · rw [List.getElem?_append_left hlt] at hk
      have hold : w₁'.cells[i']? = w'.cells[i']? := by
        rw [hc', List.getElem?_append_left (h.length ▸ hlt)]
      exact (h.links i' k hk).extend hext
        (fun j hj => hc j (h.lt_of_linked ⟨k, hk, hj⟩)) hold
    · rw [List.getElem?_append_right hge, List.getElem?_singleton] at hk
      split at hk
      · rename_i hzero
        obtain rfl : l = k := Option.some.inj hk
        have heq : i' = w'.cells.length := by
          rw [← h.length]
          omega
        rw [heq]
        exact hl
      · cases hk
  injective {j i' j'} hi hj := by
    -- a link is an old one, or the new one, which is linked to a new diagnostic if to any
    have hcases : ∀ k', Linked (π ++ [l]) j k' →
        Linked π j k' ∨ k' = π.length ∧ w.cells.length ≤ j := by
      rintro k' ⟨k, hk, hcell⟩
      rcases Nat.lt_or_ge k' π.length with hlt | hge
      · rw [List.getElem?_append_left hlt] at hk
        exact .inl ⟨k, hk, hcell⟩
      · rw [List.getElem?_append_right hge, List.getElem?_singleton] at hk
        split at hk
        · obtain rfl : l = k := Option.some.inj hk
          exact .inr ⟨by omega, hnew j hcell⟩
        · cases hk
    rcases hcases i' hi with hi | ⟨rfl, hle⟩
    · rcases hcases j' hj with hj | ⟨rfl, hle⟩
      · exact h.injective hi hj
      · exact absurd (h.lt_of_linked hi) (Nat.not_lt_of_le hle)
    · rcases hcases j' hj with hj | ⟨rfl, -⟩
      · exact absurd (h.lt_of_linked hj) (Nat.not_lt_of_le hle)
      · rfl
  names n hfresh := by
    rw [hn, hn']
    exact Linked.mono_rel (List.prefix_append π [l]) (h.names n hfresh)
  bags b := by
    rw [hb, hb']
    exact (h.bags b).mono (List.prefix_append π [l])

/-- A diagnostic changes in the second session, and so may the one that it is linked to. -/
theorem setCell (h : Matched p fresh π w w') (ht : w₁.Tallies w₁')
    (hext : (w.view p mainThread).Extends (w₁.view p mainThread)) (hl : π[i']? = some l)
    (hc : ∀ j, l.cell? ≠ some j → w₁.cells[j]? = w.cells[j]?) {d : Cell}
    (hc' : w₁'.cells = w'.cells.set i' d) (hholds : l.Holds p fresh w₁ w₁' i')
    (hn : w₁.names = w.names) (hn' : w₁'.names = w'.names) (hb : w₁.bags = w.bags)
    (hb' : w₁'.bags = w'.bags) : Matched p fresh π w₁ w₁' where
  tallies := ht
  length := by rw [hc', List.length_set, h.length]
  links j' k hk := by
    by_cases hj : i' = j'
    · subst hj
      obtain rfl : l = k := Option.some.inj (hl.symm.trans hk)
      exact hholds
    · refine (h.links j' k hk).extend hext (fun j hcell => hc j fun hcell' => ?_) ?_
      · exact hj (h.injective ⟨l, hl, hcell'⟩ ⟨k, hk, hcell⟩)
      · rw [hc', List.getElem?_set_ne hj]
  injective := h.injective
  names n hfresh := by
    rw [hn, hn']
    exact h.names n hfresh
  bags b := by
    rw [hb, hb']
    exact h.bags b

/-- Linked diagnostics get the same name. -/
theorem addName (h : Matched p fresh π w w') (n : String) (hi : Linked π i i') :
    Matched p fresh π (w.addName n i) (w'.addName n i') where
  tallies := ⟨h.tallies.bindings, h.tallies.demands, h.tallies.collected⟩
  length := h.length
  links j' l hl := (h.links j' l hl).extend (.refl _) (fun _ _ => rfl) rfl
  injective := h.injective
  names m hm := by
    show Option.Rel (Linked π) (((n, i) :: w.names).lookup m) (((n, i') :: w'.names).lookup m)
    rw [List.lookup_cons, List.lookup_cons]
    cases m == n with
    | true => exact .some hi
    | false => exact h.names m hm
  bags := h.bags

/-- A diagnostic of the second session gets a name that nothing looks up in the first. -/
theorem addFresh (h : Matched p fresh π w w') {n : String} (hn : fresh n) (i' : Nat) :
    Matched p fresh π w (w'.addName n i') where
  tallies := ⟨h.tallies.bindings, h.tallies.demands, h.tallies.collected⟩
  length := h.length
  links j' l hl := (h.links j' l hl).extend (.refl _) (fun _ _ => rfl) rfl
  injective := h.injective
  names m hm := by
    show Option.Rel (Linked π) (w.names.lookup m) (((n, i') :: w'.names).lookup m)
    have hne : (m == n) = false := by
      rw [beq_eq_false_iff_ne]
      rintro rfl
      exact hm hn
    rw [List.lookup_cons, hne]
    exact h.names m hm
  bags := h.bags

theorem push (h : Matched p fresh π w w') (bag : String) {is is' : List Nat}
    (hb : ∀ b, w₁.bags b = if b = bag then w.bags b ++ is else w.bags b)
    (hb' : ∀ b, w₁'.bags b = if b = bag then w'.bags b ++ is' else w'.bags b)
    (hf : Follows π is is') (ht : w₁.Tallies w₁')
    (hext : (w.view p mainThread).Extends (w₁.view p mainThread)) (hc : w₁.cells = w.cells)
    (hc' : w₁'.cells = w'.cells) (hn : w₁.names = w.names) (hn' : w₁'.names = w'.names) :
    Matched p fresh π w₁ w₁' where
  tallies := ht
  length := by rw [h.length, hc']
  links j' l hl := (h.links j' l hl).extend hext (fun _ _ => by rw [hc]) (by rw [hc'])
  injective := h.injective
  names m hm := by
    rw [hn, hn']
    exact h.names m hm
  bags b := by
    rw [hb, hb']
    split
    · exact (h.bags b).append hf
    · exact h.bags b

end Matched
end Session
end Deferral
