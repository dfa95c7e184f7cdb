/-
# Lawful actions

An action is lawful on a thread when, from a sound world in which the thread has been started, it
passes through sound worlds only and leaves a later world behind, whether it ends or breaks off.
What is lawful is closed under the ways in which actions are put together, so a session is lawful
because its smallest changes are.

Key definitions: `Session.Act.course`, `Session.Passage`, `Session.Lawful`,
`Session.LawfulRunner`.
Key theorems: `Session.Lawful.bind`, `Session.Lawful.tryCatch`, `Session.lawful_onThread`.
-/
import Deferral.Proofs.Sound

namespace Deferral
namespace Session

variable {p : Program} {t : Thread} {α β : Type}

/-! ### Courses -/

/-- The course of an action that goes on from the course `c`. -/
def Act.course (act : Act α) (c : Course) : Course :=
  match act c with
  | .ok _ c' => c'
  | .error _ c' => c'

theorem Act.course_of_ok {act : Act α} {c c' : Course} {a : α} (h : act c = .ok a c') :
    act.course c = c' := by
  simp [Act.course, h]

theorem Act.course_of_error {act : Act α} {c c' : Course} {x : Interruption}
    (h : act c = .error x c') : act.course c = c' := by
  simp [Act.course, h]

/-- What interrupts the action that goes on from the course `c`, if anything does. -/
def Act.interruption? (act : Act α) (c : Course) : Option Interruption :=
  match act c with
  | .ok _ _ => none
  | .error x _ => some x

theorem Act.eq_ok_of_interruption? {act : Act α} {c : Course} (h : act.interruption? c = none) :
    ∃ a, act c = .ok a (act.course c) := by
  cases hc : act c with
  | ok a c' => exact ⟨a, by rw [Act.course_of_ok hc]⟩
  | error x c' => simp [Act.interruption?, hc] at h

theorem Act.eq_error_of_interruption? {act : Act α} {c : Course} {x : Interruption}
    (h : act.interruption? c = some x) : act c = .error x (act.course c) := by
  cases hc : act c with
  | ok a c' => simp [Act.interruption?, hc] at h
  | error y c' =>
    obtain rfl : y = x := by simpa [Act.interruption?, hc] using h
    rw [Act.course_of_error hc]

/-- What the action that goes on from the course `c` answers, unless it is interrupted. -/
def Act.answer? (act : Act α) (c : Course) : Option α :=
  match act c with
  | .ok a _ => some a
  | .error _ _ => none

theorem Act.eq_ok_of_answer? {act : Act α} {c : Course} {a : α} (h : act.answer? c = some a) :
    act c = .ok a (act.course c) := by
  cases hc : act c with
  | ok b c' =>
    obtain rfl : b = a := by simpa [Act.answer?, hc] using h
    rw [Act.course_of_ok hc]
  | error x c' => simp [Act.answer?, hc] at h

theorem Act.bind_of_ok {x : Act α} {f : α → Act β} {c c' : Course} {a : α}
    (h : x c = .ok a c') : (x >>= f) c = f a c' := by
  simp [Bind.bind, h]

theorem Act.bind_of_error {x : Act α} {f : α → Act β} {c c' : Course} {e : Interruption}
    (h : x c = .error e c') : (x >>= f) c = .error e c' := by
  simp [Bind.bind, h]

theorem Act.tryCatch_of_ok {x : Act α} {handle : Interruption → Act α} {c c' : Course} {a : α}
    (h : x c = .ok a c') : (tryCatch x handle : Act α) c = .ok a c' := by
  simp [MonadExcept.tryCatch, tryCatchThe, MonadExceptOf.tryCatch, h]

theorem Act.tryCatch_of_error {x : Act α} {handle : Interruption → Act α} {c c' : Course}
    {e : Interruption} (h : x c = .error e c') :
    (tryCatch x handle : Act α) c = handle e c' := by
  simp [MonadExcept.tryCatch, tryCatchThe, MonadExceptOf.tryCatch, h]

theorem Act.bind_eq_ok {x : Act α} {f : α → Act β} {c c' : Course} {b : β}
    (h : (x >>= f) c = .ok b c') : ∃ a c₁, x c = .ok a c₁ ∧ f a c₁ = .ok b c' := by
  cases hx : x c with
  | ok a c₁ =>
    rw [Act.bind_of_ok hx] at h
    exact ⟨a, c₁, rfl, h⟩
  | error e c₁ =>
    rw [Act.bind_of_error hx] at h
    cases h

theorem Act.bind_assoc {γ : Type} (x : Act α) (f : α → Act β) (g : β → Act γ) :
    x >>= f >>= g = x >>= fun a => f a >>= g := by
  funext c
  cases hx : x c <;> simp [Bind.bind, hx]

theorem Act.bind_pure (x : Act α) : (x >>= fun a => pure a) = x := by
  funext c
  cases hx : x c with
  | ok a c' => exact Act.bind_of_ok hx
  | error e c' => exact Act.bind_of_error hx

theorem Act.get_bind (f : World → Act α) (c : Course) : (get >>= f) c = f c.now c := rfl

theorem Act.modify_bind (g : World → World) (f : Unit → Act α) (c : Course) :
    (modify g >>= f) c = f ⟨⟩ (c.goOn (g c.now)) := rfl

theorem Act.course_bind_of_ok {x : Act α} {f : α → Act β} {c c' : Course} {a : α}
    (h : x c = .ok a c') : (x >>= f).course c = (f a).course c' := by
  simp [Act.course, Act.bind_of_ok h]

/-- An action that is given up where it would have to wait goes on as it does without that, or has
done nothing. -/
theorem Act.course_unlessWaiting (x : Act α) (c : Course) :
    (unlessWaiting x).course c = x.course c ∨ unlessWaiting x c = .ok none c := by
  unfold unlessWaiting
  cases hx : x c with
  | ok a c' => exact .inl (by simp [Act.course, hx])
  | error e c' =>
    cases e with
    | blocked => exact .inr rfl
    | failure f => exact .inl (by simp [Act.course, hx])
    | tooDeep => exact .inl (by simp [Act.course, hx])
    | unknownName name => exact .inl (by simp [Act.course, hx])

/-- The course on which a run of the binder of an entity goes on. -/
def Course.started (c : Course) (e : Nat) (t : Thread) : Course :=
  c.goOn (c.now.updateBinding e (·.start t))

/-- From one course to another, by way of sound worlds, to a later world. -/
structure Passage (p : Program) (c c' : Course) : Prop where
  path : ∃ ws, c'.worlds = ws ++ c.worlds ∧ ∀ w ∈ ws, w.Sound p
  later : c.now.Later c'.now

namespace Passage

variable {c c' c'' : Course}

theorem refl (p : Program) (c : Course) : Passage p c c :=
  ⟨⟨[], rfl, by simp⟩, .refl _⟩

theorem trans (h : Passage p c c') (h' : Passage p c' c'') : Passage p c c'' where
  path := by
    obtain ⟨ws, hws, hs⟩ := h.path
    obtain ⟨ws', hws', hs'⟩ := h'.path
    refine ⟨ws' ++ ws, by rw [hws', hws, List.append_assoc], fun w hw => ?_⟩
    rcases List.mem_append.mp hw with hw | hw
    · exact hs' w hw
    · exact hs w hw
  later := h.later.trans h'.later

/-- A run of a binder: what happens between its start and its end goes on from the started world,
which is not later than the one before, but the world after its end is. -/
theorem completing {e : Nat} {finish : Binding → Binding}
    (hidle : (c.now.bindings e).completion = .notStarted)
    (hstart : (c.now.updateBinding e (·.start t)).Sound p)
    (hrun : Passage p (c.started e t) c')
    (hend : ∀ b t, (finish b).completion ≠ .inProgress t)
    (hsound : (c'.now.updateBinding e finish).Sound p) :
    Passage p c (c'.goOn (c'.now.updateBinding e finish)) where
  path := by
    obtain ⟨ws, hws, hall⟩ := hrun.path
    refine ⟨c'.now.updateBinding e finish :: (ws ++ [c.now.updateBinding e (·.start t)]), ?_, ?_⟩
    · simpa [Course.worlds, Course.goOn, Course.started] using hws
    · intro w hw
      rcases List.mem_cons.mp hw with rfl | hw
      · exact hsound
      rcases List.mem_append.mp hw with hw | hw
      · exact hall w hw
      · exact List.mem_singleton.mp hw ▸ hstart
  later := .completing hidle hrun.later hend

/-- One step, to a sound and later world. -/
theorem goOn {w : World} (hs : w.Sound p) (hl : c.now.Later w) : Passage p c (c.goOn w) :=
  ⟨⟨[w], rfl, by simpa using hs⟩, hl⟩

theorem sound (h : Passage p c c') (hs : c.now.Sound p) : c'.now.Sound p := by
  obtain ⟨ws, hws, hall⟩ := h.path
  cases ws with
  | nil => exact (List.cons.inj hws).1 ▸ hs
  | cons w ws =>
    obtain rfl : c'.now = w := (List.cons.inj hws).1
    exact hall _ List.mem_cons_self

theorem hosts (h : Passage p c c') (ht : c.now.Hosts t) : c'.now.Hosts t := ht.later h.later

theorem suffix (h : Passage p c c') : c.worlds <:+ c'.worlds := by
  obtain ⟨ws, hws, -⟩ := h.path
  exact ⟨ws, hws.symm⟩

theorem bind {x : Act α} {f : α → Act β} (hx : Passage p c (x.course c))
    (hf : ∀ a c', x c = .ok a c' → Passage p c' ((f a).course c')) :
    Passage p c ((x >>= f).course c) := by
  cases hc : x c with
  | ok a c' =>
    rw [Act.course_bind_of_ok hc]
    exact (Act.course_of_ok hc ▸ hx).trans (hf a c' hc)
  | error e c' =>
    rw [Act.course_of_error (Act.bind_of_error hc)]
    exact Act.course_of_error hc ▸ hx

theorem tryCatch {x : Act α} {h : Interruption → Act α} (hx : Passage p c (x.course c))
    (hh : ∀ e c', x c = .error e c' → Passage p c' ((h e).course c')) :
    Passage p c ((MonadExcept.tryCatch x h).course c) := by
  cases hc : x c with
  | ok a c' =>
    rw [Act.course_of_ok (Act.tryCatch_of_ok hc)]
    exact Act.course_of_ok hc ▸ hx
  | error e c' =>
    rw [Act.course, Act.tryCatch_of_error hc]
    exact (Act.course_of_error hc ▸ hx).trans (hh e c' hc)

end Passage
/-! ### Lawful actions -/

/-- From a sound world in which the thread has been started, the action makes a passage. -/
def Lawful (p : Program) (t : Thread) (act : Act α) : Prop :=
  ∀ c : Course, c.now.Sound p → c.now.Hosts t → Passage p c (act.course c)

/-- Nested steps are lawful on the thread that they run on. -/
def LawfulRunner (p : Program) (run : Runner) : Prop :=
  ∀ at_ steps, Lawful p at_.thread (run at_ steps)

namespace Lawful

theorem pure (a : α) : Lawful p t (Pure.pure a : Act α) := fun c _ _ => .refl p c

theorem throw (x : Interruption) : Lawful p t (MonadExcept.throw x : Act α) :=
  fun c _ _ => .refl p c

theorem get : Lawful p t (MonadState.get : Act World) := fun c _ _ => .refl p c

theorem ok {act : Act α} (h : Lawful p t act) {c c' : Course} {a : α} (hs : c.now.Sound p)
    (ht : c.now.Hosts t) (hc : act c = .ok a c') : Passage p c c' :=
  Act.course_of_ok hc ▸ h c hs ht

theorem error {act : Act α} (h : Lawful p t act) {c c' : Course} {x : Interruption}
    (hs : c.now.Sound p) (ht : c.now.Hosts t) (hc : act c = .error x c') : Passage p c c' :=
  Act.course_of_error hc ▸ h c hs ht

theorem bind {x : Act α} {f : α → Act β} (hx : Lawful p t x) (hf : ∀ a, Lawful p t (f a)) :
    Lawful p t (x >>= f) := by
  intro c hs ht
  refine (hx c hs ht).bind fun a c' hc => ?_
  have h := hx.ok hs ht hc
  exact hf a c' (h.sound hs) (h.hosts ht)

theorem tryCatch {x : Act α} {handle : Interruption → Act α} (hx : Lawful p t x)
    (hh : ∀ e, Lawful p t (handle e)) : Lawful p t (MonadExcept.tryCatch x handle : Act α) := by
  intro c hs ht
  refine (hx c hs ht).tryCatch fun e c' hc => ?_
  have h := hx.error hs ht hc
  exact hh e c' (h.sound hs) (h.hosts ht)

theorem unlessWaiting {x : Act α} (hx : Lawful p t x) : Lawful p t (unlessWaiting x) := by
  intro c hs ht
  rcases Act.course_unlessWaiting x c with h | h
  · rw [h]
    exact hx c hs ht
  · rw [Act.course_of_ok h]
    exact .refl p c

/-- An action that first looks at the world. -/
theorem look {f : World → Act α}
    (h : ∀ c : Course, c.now.Sound p → c.now.Hosts t → Passage p c ((f c.now).course c)) :
    Lawful p t (MonadState.get >>= f) := h

/-- A change that keeps soundness and makes a later world. -/
theorem change {f : World → World}
    (h : ∀ w, w.Sound p → w.Hosts t → (f w).Sound p ∧ w.Later (f w)) :
    Lawful p t (modify f : Act Unit) := fun c hs ht =>
  .goOn (h c.now hs ht).1 (h c.now hs ht).2

end Lawful

/-- Nothing but the log, the demands, the names, the keys and the threads differs. -/
structure World.Agrees (w w' : World) : Prop where
  bindings : w'.bindings = w.bindings
  cells : w'.cells = w.cells
  bags : w'.bags = w.bags
  nextThread : w.nextThread ≤ w'.nextThread

theorem World.Agrees.passage {c : Course} {w : World} (h : c.now.Agrees w) (hs : c.now.Sound p) :
    Passage p c (c.goOn w) :=
  .goOn (hs.of_eq h.bindings h.cells h.nextThread) (.of_eq h.bindings h.cells h.bags h.nextThread)

theorem Lawful.change_of_agrees {f : World → World} (h : ∀ w : World, w.Agrees (f w)) :
    Lawful p t (modify f : Act Unit) := fun c hs _ => (h c.now).passage hs

/-! ### Traces and threads -/

theorem lawful_note (e : Entry) : Lawful p t (modify fun w => w.note e : Act Unit) :=
  .change_of_agrees fun _ => ⟨rfl, rfl, rfl, Nat.le_refl _⟩

theorem lawful_emit (at_ : Scope) (e : TraceEntry) : Lawful p t (emit at_ e) := by
  unfold emit
  split
  · exact lawful_note _
  · exact .pure _

theorem lawful_inSpan {body : Act α} (at_ : Scope) (name : String)
    (fields : List (String × FieldValue)) (h : Lawful p t body) :
    Lawful p t (inSpan at_ name fields body) := by
  refine (lawful_emit at_ _).bind fun _ => .bind (.tryCatch h fun x => ?_) fun a => ?_
  · exact (lawful_emit at_ _).bind fun _ => .throw x
  · exact (lawful_emit at_ _).bind fun _ => .pure a

/-- The log of the running thread is put aside and taken up again. -/
theorem lawful_setLog (log : List Entry) :
    Lawful p t (modify fun w => { w with log } : Act Unit) :=
  .change_of_agrees fun _ => ⟨rfl, rfl, rfl, Nat.le_refl _⟩

/-- What is lawful on each new thread is lawful on the thread that starts it and waits for it. -/
theorem lawful_onThread {body : Scope → Act α} (h : ∀ at_, Lawful p at_.thread (body at_)) :
    Lawful p t (onThread body) := by
  intro c hs ht
  -- the two looks at the world change nothing, so the thread is the next one of this very world
  have hstart : Passage p c (c.goOn { c.now with log := [], nextThread := c.now.nextThread + 1 }) :=
    World.Agrees.passage ⟨rfl, rfl, rfl, Nat.le_succ _⟩ hs
  have hnew : World.Hosts { c.now with log := [], nextThread := c.now.nextThread + 1 }
      c.now.nextThread := ⟨Nat.le_of_lt (Nat.lt_of_le_of_lt ht.1 ht.2), Nat.lt_succ_self _⟩
  have hbody : Lawful p c.now.nextThread (do
      let result ←
        try body ⟨c.now.nextThread, []⟩
        catch x =>
          modify fun w => { w with log := c.now.log }
          throw x
      let inner := (← get).log
      modify fun w => { w with log := c.now.log }
      return (result, inner.reverse) : Act (α × List Entry)) := by
    refine .bind (.tryCatch (h ⟨c.now.nextThread, []⟩) fun x => ?_) fun a => .bind .get fun w => ?_
    · exact (lawful_setLog _).bind fun _ => .throw x
    · exact (lawful_setLog _).bind fun _ => .pure _
  exact hstart.trans (hbody _ (hstart.sound hs) hnew)

end Session
end Deferral
