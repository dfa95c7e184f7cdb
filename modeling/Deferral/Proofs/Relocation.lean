/-
# Diagnostics for sites elsewhere

Two worlds may differ in where the sites are whose references their diagnostics check: these
diagnostics are to the same entities, from sites with the same flags and spans, but other entities
are around them. In all else that the functions of a session look at the worlds are the same.

Actions go in tandem if, from two such worlds, they come to such worlds again, and end or break off
alike; the same is logged meanwhile, but for texts that show a site. What goes in tandem is closed
under the ways in which actions are put together. On the way, what has begun stays as it is, and no
demand is forgotten.

Key definitions: `Session.Computation.Relocated`, `Session.Entry.Alike`, `Session.World.Relocated`,
`Session.World.Keeps`, `Session.InTandem`.
Key theorems: `Session.InTandem.bind`, `Session.InTandem.onThread`, `Session.World.Keeps.ripens`.
-/
import Deferral.Proofs.Unheeded

namespace Deferral
namespace Session

variable {p : Program} {t : Thread} {at_ : Scope} {w w' u : World} {c c' c₁ : Course}

/-! ### Worlds with sites elsewhere -/

/-- The same computation, or a check of the same entity from a site elsewhere, under options that
do not heed containers. -/
inductive Computation.Relocated (p : Program) : Computation → Computation → Prop where
  | same (comp : Computation) : Relocated p comp comp
  | elsewhere {candidate : Nat} {ctx ctx' : Context} {opts : Options}
      (off : opts.suppressInDeprecatedContainers = false) (source : p.IsSource candidate)
      (outside : ctx'.outside = ctx.outside) :
      Relocated p (.check .deprecation candidate ctx opts) (.check .deprecation candidate ctx' opts)

/-- The same diagnostic, but for where a site is. -/
inductive Cell.Relocated (p : Program) : Cell → Cell → Prop where
  | known (o : Shared Finding) : Relocated p (.known o) (.known o)
  | deferred {comp comp' : Computation} (h : comp.Relocated p comp') (slot : WriteOnce Finding)
      (calls : Nat) : Relocated p (.deferred comp slot calls) (.deferred comp' slot calls)

mutual

/-- The same answer, but for texts, which may show where a site is. -/
inductive Answer.Alike : Answer → Answer → Prop where
  | same (a : Answer) : Answer.Alike a a
  | text (s s' : String) : Answer.Alike (.text s) (.text s')
  | thread {log log' : List Entry} (h : List.Forall₂ Entry.Alike log log') :
      Answer.Alike (.thread log) (.thread log')

/-- The same entry of the trace, or like answers of a step. -/
inductive Entry.Alike : Entry → Entry → Prop where
  | step (name : String) (within : List String) {a a' : Answer} (h : Answer.Alike a a') :
      Entry.Alike (.step name within a) (.step name within a')
  | trace (t : TraceEntry) : Entry.Alike (.trace t) (.trace t)

end

/-- A thread with like answers, or the same steps before it. -/
inductive Launched.Alike : Launched → Launched → Prop where
  | ended {a a' : Answer} (h : a.Alike a') : Launched.Alike (.ended a) (.ended a')
  | held (steps : List Step) : Launched.Alike (.held steps) (.held steps)

/-- The same name of a thread, and threads alike. -/
structure Launched.NamedAlike (l l' : String × Launched) : Prop where
  name : l'.1 = l.1
  alike : l.2.Alike l'.2

/-- The same but for where sites are, and for texts in the log that show it. -/
structure World.Relocated (p : Program) (w w' : World) : Prop where
  bindings : w'.bindings = w.bindings
  demands : w'.demands = w.demands
  cells : List.Forall₂ (Cell.Relocated p) w.cells w'.cells
  names : w'.names = w.names
  bags : w'.bags = w.bags
  nextKey : w'.nextKey = w.nextKey
  launched : List.Forall₂ Launched.NamedAlike w.launched w'.launched
  nextThread : w'.nextThread = w.nextThread
  log : List.Forall₂ Entry.Alike w.log w'.log

theorem Entry.Alike.refl : ∀ e : Entry, e.Alike e
  | .step name within a => .step name within (.same a)
  | .trace t => .trace t

theorem Answer.Alike.of_eq {a a' : Answer} (h : a' = a) : a.Alike a' := h ▸ .same a'

theorem Launched.Alike.refl : ∀ l : Launched, l.Alike l
  | .ended a => .ended (.same a)
  | .held steps => .held steps

theorem Cell.Relocated.refl : ∀ c : Cell, c.Relocated p c
  | .known o => .known o
  | .deferred comp slot calls => .deferred (.same comp) slot calls

theorem Cell.Relocated.isResolved {d d' : Cell} (h : d.Relocated p d') :
    d'.isResolved = d.isResolved := by
  cases h with
  | known o => rfl
  | deferred h slot calls => rfl

theorem Cell.Relocated.memoized? {d d' : Cell} (h : d.Relocated p d') :
    d'.memoized? = d.memoized? := by
  cases h with
  | known o => rfl
  | deferred h slot calls => rfl

namespace World.Relocated

theorem refl (p : Program) (w : World) : w.Relocated p w :=
  ⟨rfl, rfl, List.forall₂_same.mpr fun c _ => .refl c, rfl, rfl, rfl,
    List.forall₂_same.mpr fun l _ => ⟨rfl, .refl l.2⟩, rfl,
    List.forall₂_same.mpr fun e _ => .refl e⟩

/-- Under a number there is nothing in both worlds, or there are related diagnostics. -/
theorem cell (h : w.Relocated p w') (i : Nat) :
    Option.Rel (Cell.Relocated p) w.cells[i]? w'.cells[i]? := by
  have hcells := h.cells
  generalize w.cells = cs at hcells ⊢
  generalize w'.cells = cs' at hcells ⊢
  induction hcells generalizing i with
  | nil => exact .none
  | cons hd _ ih =>
    cases i with
    | zero => exact .some hd
    | succ i => exact ih i

/-- Under a name there is no thread in both worlds, or there are threads alike. -/
theorem lookup_launched (h : w.Relocated p w') (thread : String) :
    Option.Rel Launched.Alike (w.launched.lookup thread) (w'.launched.lookup thread) := by
  have hlaunched := h.launched
  generalize w.launched = ls at hlaunched ⊢
  generalize w'.launched = ls' at hlaunched ⊢
  induction hlaunched with
  | nil => exact .none
  | @cons l l' _ _ hl _ ih =>
    obtain ⟨name, l⟩ := l
    obtain ⟨name', l'⟩ := l'
    obtain rfl : name' = name := hl.name
    rw [List.lookup_cons, List.lookup_cons]
    split
    · exact .some hl.alike
    · exact ih

theorem view (h : w.Relocated p w') (me : Thread) : w'.view p me = w.view p me :=
  view_congr h.bindings h.demands

theorem isResolved (h : w.Relocated p w') (i : Nat) : w'.isResolved i = w.isResolved i := by
  have hcell := h.cell i
  unfold World.isResolved
  generalize w.cells[i]? = d? at hcell ⊢
  generalize w'.cells[i]? = d'? at hcell ⊢
  cases hcell with
  | none => rfl
  | some hd => exact hd.isResolved

theorem memoized? (h : w.Relocated p w') (i : Nat) :
    w'.cells[i]?.bind (·.memoized?) = w.cells[i]?.bind (·.memoized?) := by
  have hcell := h.cell i
  generalize w.cells[i]? = d? at hcell ⊢
  generalize w'.cells[i]? = d'? at hcell ⊢
  cases hcell with
  | none => rfl
  | some hd => exact hd.memoized?

theorem pending (h : w.Relocated p w') (bag : String) : w'.pending bag = w.pending bag := by
  unfold World.pending
  rw [h.bags]
  simp only [h.isResolved]

theorem addCell (h : w.Relocated p w') {d d' : Cell} (hd : d.Relocated p d') :
    (w.addCell d).Relocated p (w'.addCell d') :=
  { h with cells := List.rel_append h.cells (.cons hd .nil) }

theorem setCell (h : w.Relocated p w') (i : Nat) {d d' : Cell} (hd : d.Relocated p d') :
    (w.setCell i d).Relocated p (w'.setCell i d') := by
  refine { h with cells := ?_ }
  have hcells := h.cells
  unfold World.setCell
  generalize w.cells = cs at hcells ⊢
  generalize w'.cells = cs' at hcells ⊢
  induction hcells generalizing i with
  | nil => exact .nil
  | cons hd' hcells ih =>
    cases i with
    | zero => exact .cons hd hcells
    | succ i => exact .cons hd' (ih i)

theorem updateBinding (h : w.Relocated p w') (e : Nat) (f : Binding → Binding) :
    (w.updateBinding e f).Relocated p (w'.updateBinding e f) := by
  refine { h with bindings := ?_ }
  unfold World.updateBinding
  rw [h.bindings]

end World.Relocated

/-! ### What stays -/

/-- What has begun stays as it is, and no demand is forgotten. -/
structure World.Keeps (w w' : World) : Prop where
  begun : ∀ e, w.Begun e → w'.bindings e = w.bindings e
  demands : ∀ e, w.demands.count e ≤ w'.demands.count e

namespace World.Keeps

theorem of_eq (hb : w'.bindings = w.bindings) (hd : w'.demands = w.demands) : w.Keeps w' where
  begun e _ := congrFun hb e
  demands e := by rw [hd]

theorem refl (w : World) : w.Keeps w := .of_eq rfl rfl

theorem trans (h : w.Keeps w') (h' : w'.Keeps u) : w.Keeps u where
  begun e he := by
    have heq := h.begun e he
    have he' : w'.Begun e := by
      rw [World.Begun, heq]
      exact he
    rw [h'.begun e he', heq]
  demands e := Nat.le_trans (h.demands e) (h'.demands e)

/-- A run of a binder from its start to its end. -/
theorem completing {e : Nat} (finish : Binding → Binding)
    (hidle : (w.bindings e).completion = .notStarted)
    (hrun : (w.updateBinding e (·.start t)).Keeps w') : w.Keeps (w'.updateBinding e finish) where
  begun d hd := by
    have hde : d ≠ e := fun heq => hd (heq ▸ hidle)
    have hstarted : (w.updateBinding e (·.start t)).bindings d = w.bindings d :=
      updateBinding_ne w hde _
    have hkept := hrun.begun d
    rw [World.Begun, hstarted] at hkept
    rw [updateBinding_ne w' hde]
    exact hkept hd
  demands := hrun.demands

theorem ripens (h : w.Keeps w') : w.Ripens p w' := by
  intro e
  unfold World.finished
  cases (p.entity e).behaviour with
  | source wrapped completed binder =>
    intro hf
    have hbegun : w.Begun e := fun hidle => by
      simp [Binding.isFinished, hidle, Completion.data?] at hf
    rw [h.begun e hbegun]
    exact hf
  | stub needs here =>
    have hcount := h.demands e
    simp only [Bool.and_eq_true, decide_eq_true_eq]
    omega
  | bare finished => exact id

end World.Keeps

/-! ### Actions in tandem -/

/-- Both have ended, with answers that are related, or have broken off alike; the worlds are the
same again but for where sites are, and have kept what there was. -/
inductive EndsInTandem {α β : Type} (p : Program) (R : α → β → Prop) (w : World) :
    EStateM.Result Interruption Course α → EStateM.Result Interruption Course β → Prop where
  | ok {a : α} {b : β} {c c' : Course} (answers : R a b) (relocated : c.now.Relocated p c'.now)
      (keeps : w.Keeps c.now) : EndsInTandem p R w (.ok a c) (.ok b c')
  | error (x : Interruption) {c c' : Course} (relocated : c.now.Relocated p c'.now)
      (keeps : w.Keeps c.now) : EndsInTandem p R w (.error x c) (.error x c')

/-- From worlds that are the same but for where sites are, the actions end in tandem. -/
def InTandem {α β : Type} (p : Program) (R : α → β → Prop) (x : Act α) (y : Act β) : Prop :=
  ∀ c c' : Course, c.now.Relocated p c'.now → EndsInTandem p R c.now (x c) (y c')

section

variable {α β γ δ : Type} {R : α → β → Prop} {S : γ → δ → Prop}

theorem EndsInTandem.after {r : EStateM.Result Interruption Course α}
    {r' : EStateM.Result Interruption Course β} (h : w.Keeps u) (hends : EndsInTandem p R u r r') :
    EndsInTandem p R w r r' := by
  cases hends with
  | ok answers relocated keeps => exact .ok answers relocated (h.trans keeps)
  | error x relocated keeps => exact .error x relocated (h.trans keeps)

theorem EndsInTandem.eq_ok {a : α} {r : EStateM.Result Interruption Course α}
    (h : EndsInTandem p Eq w (.ok a c) r) : ∃ c', r = .ok a c' ∧ c.now.Relocated p c'.now := by
  cases h with
  | ok answers relocated keeps =>
    subst answers
    exact ⟨_, rfl, relocated⟩

namespace InTandem

theorem pure {a : α} {b : β} (h : R a b) :
    InTandem p R (Pure.pure a : Act α) (Pure.pure b : Act β) :=
  fun c _ hw => .ok h hw (.refl c.now)

theorem throw (x : Interruption) :
    InTandem p R (MonadExcept.throw x : Act α) (MonadExcept.throw x : Act β) :=
  fun c _ hw => .error x hw (.refl c.now)

/-- Actions that first look at the world. -/
theorem look {f : World → Act α} {g : World → Act β}
    (h : ∀ c c' : Course, c.now.Relocated p c'.now →
      EndsInTandem p R c.now (f c.now c) (g c'.now c')) :
    InTandem p R (get >>= f) (get >>= g) := h

theorem get : InTandem p (World.Relocated p) (MonadState.get : Act World) MonadState.get :=
  fun c _ hw => .ok hw hw (.refl c.now)

theorem change {f g : World → World}
    (h : ∀ w w', w.Relocated p w' → (f w).Relocated p (g w') ∧ w.Keeps (f w)) :
    InTandem p Eq (modify f : Act Unit) (modify g) :=
  fun c c' hw => .ok rfl (h c.now c'.now hw).1 (h c.now c'.now hw).2

theorem bind {x : Act α} {y : Act β} {f : α → Act γ} {g : β → Act δ} (hxy : InTandem p R x y)
    (hfg : ∀ a b, R a b → InTandem p S (f a) (g b)) : InTandem p S (x >>= f) (y >>= g) := by
  intro c c' hw
  have hends := hxy c c' hw
  generalize hx : x c = r at hends
  generalize hy : y c' = r' at hends
  cases hends with
  | ok answers relocated keeps =>
    rw [Act.bind_of_ok hx, Act.bind_of_ok hy]
    exact (hfg _ _ answers _ _ relocated).after keeps
  | error e relocated keeps =>
    rw [Act.bind_of_error hx, Act.bind_of_error hy]
    exact .error e relocated keeps

/-- The first actions come to the same answer, and go on from it. -/
theorem andThen {x y : Act α} {f : α → Act γ} {g : α → Act δ} (hxy : InTandem p Eq x y)
    (hfg : ∀ a, InTandem p S (f a) (g a)) : InTandem p S (x >>= f) (y >>= g) :=
  hxy.bind fun a _ hab => hab ▸ hfg a

theorem tryCatch {x : Act α} {y : Act β} {f : Interruption → Act α} {g : Interruption → Act β}
    (hxy : InTandem p R x y) (hfg : ∀ e, InTandem p R (f e) (g e)) :
    InTandem p R (MonadExcept.tryCatch x f : Act α) (MonadExcept.tryCatch y g : Act β) := by
  intro c c' hw
  have hends := hxy c c' hw
  generalize hx : x c = r at hends
  generalize hy : y c' = r' at hends
  cases hends with
  | ok answers relocated keeps =>
    rw [Act.tryCatch_of_ok hx, Act.tryCatch_of_ok hy]
    exact .ok answers relocated keeps
  | error e relocated keeps =>
    rw [Act.tryCatch_of_error hx, Act.tryCatch_of_error hy]
    exact (hfg e _ _ relocated).after keeps

/-- Neither has done anything where both would have to wait. -/
theorem unlessWaiting {x : Act α} {y : Act β} (h : InTandem p R x y) :
    InTandem p (Option.Rel R) (unlessWaiting x) (Session.unlessWaiting y) := by
  intro c c' hw
  have hends := h c c' hw
  unfold Session.unlessWaiting
  generalize x c = r at hends
  generalize y c' = r' at hends
  cases hends with
  | ok answers relocated keeps => exact .ok (.some answers) relocated keeps
  | error e relocated keeps =>
    cases e with
    | blocked => exact .ok .none hw (.refl _)
    | failure f => exact .error _ relocated keeps
    | tooDeep => exact .error _ relocated keeps
    | unknownName name => exact .error _ relocated keeps

/-! ### Traces and threads -/

theorem note {e e' : Entry} (h : e.Alike e') :
    InTandem p Eq (modify fun w => w.note e : Act Unit) (modify fun w => w.note e') :=
  .change fun _ _ hw => ⟨{ hw with log := .cons h hw.log }, .of_eq rfl rfl⟩

theorem emit (at_ : Scope) (e : TraceEntry) : InTandem p Eq (emit at_ e) (Session.emit at_ e) := by
  unfold Session.emit
  split
  · exact .note (.trace e)
  · exact .pure rfl

theorem inSpan {x : Act α} {y : Act β} (at_ : Scope) (name : String)
    (fields : List (String × FieldValue)) (h : InTandem p R x y) :
    InTandem p R (inSpan at_ name fields x) (Session.inSpan at_ name fields y) := by
  refine (emit at_ _).andThen fun _ => .bind (.tryCatch h fun x => ?_) fun a b hab => ?_
  · exact (emit at_ _).andThen fun _ => .throw x
  · exact (emit at_ _).andThen fun _ => .pure hab

theorem guarded {x y : Act Answer} (h : InTandem p Answer.Alike x y) :
    InTandem p Answer.Alike (guarded x) (Session.guarded y) := by
  refine .tryCatch h fun x => ?_
  cases x with
  | failure f => exact .pure (.same _)
  | blocked => exact .throw _
  | tooDeep => exact .throw _
  | unknownName name => exact .throw _

/-- The log of the running thread is put aside, or taken up again. -/
theorem setLog {log log' : List Entry} (h : List.Forall₂ Entry.Alike log log') :
    InTandem p Eq (modify fun w => { w with log } : Act Unit)
      (modify fun w => { w with log := log' }) :=
  .change fun _ _ hw => ⟨{ hw with log := h }, .of_eq rfl rfl⟩

theorem onThread {f : Scope → Act α} {g : Scope → Act β}
    (h : ∀ at_, InTandem p R (f at_) (g at_)) :
    InTandem p (fun a b => R a.1 b.1 ∧ List.Forall₂ Entry.Alike a.2 b.2) (onThread f)
      (Session.onThread g) := by
  refine get.bind fun w w' hw => get.bind fun u u' hu => ?_
  rw [hu.nextThread]
  refine .andThen (.change fun _ _ hv => ⟨{ hv with log := .nil, nextThread := rfl },
    .of_eq rfl rfl⟩) fun _ => ?_
  refine .bind (.tryCatch (h _) fun x => ?_) fun a b hab => ?_
  · exact (setLog hw.log).andThen fun _ => .throw x
  · refine get.bind fun _ _ hv => (setLog hw.log).andThen fun _ => .pure ⟨hab, ?_⟩
    exact List.forall₂_reverse_iff.mpr hv.log

end InTandem
end

end Session
end Deferral
