/-
# Threads that wait for one another

A binder may demand further entities, so a thread has calls inside calls. Any number of threads
demand any number of entities here, and each call takes its steps on the entity it demands. A
thread whose innermost call sleeps waits for whoever owns the entity of this call. Where the binders
of two entities refer to one another, two threads can come to wait for one another, and then they
do so for ever. A circle of waiting threads comes about in no other way. Each entity by itself goes
through a run as if there were no others.

Key definitions: `Contention.Crowd`, `Contention.Crowd.Step`, `Contention.Crowd.WaitsFor`,
`Contention.Crowd.Orderly`, `Contention.Crowd.Stuck`.
Key theorems: `Contention.Crowd.orderly_step`, `Contention.Crowd.entity_run`,
`Contention.Crowd.stuck_step`, `Contention.Crowd.circle_of_waits`,
`Contention.Crowd.facing_binders_wait`.
-/
import Deferral.Proofs.SingleBinding
import Mathlib.Data.List.Chain
import Mathlib.Logic.Relation

namespace Deferral
namespace Contention

open Relation (TransGen ReflTransGen)

/-! ### Calls inside calls -/

/-- The thread that makes the call. -/
def Phase.thread? : Phase → Option Thread
  | .outside => none
  | .looking t => some t
  | .asleep t => some t
  | .binding t => some t
  | .stored t => some t
  | .reset t => some t
  | .returned t => some t
  | .reentered t => some t
  | .unwound t => some t

/-- The call is over. -/
def Phase.hasEnded : Phase → Bool
  | .returned _ => true
  | .reentered _ => true
  | .unwound _ => true
  | _ => false

/-- The call that an event happens to. -/
def Event.call : Event → Nat
  | .enter k _ => k
  | .look k _ => k
  | .finish k _ => k
  | .abandon k => k
  | .notify k => k
  | .wake k => k

/-- A call: the entity it demands, and its number among the calls that demand this entity. -/
structure Call where
  entity : Nat
  number : Nat
deriving DecidableEq

/-- Entities with those who demand them, and the calls that each thread is in, innermost first. -/
structure Crowd where
  entities : Nat → Demanded
  current : Thread → List Call

namespace Crowd

/-- Nobody has demanded anything yet. -/
def initial (b : Nat → Binding) : Crowd := ⟨fun e => .initial (b e), fun _ => []⟩

/-- How far a call has come. -/
def phase (s : Crowd) (c : Call) : Phase := (s.entities c.entity).calls c.number

/-- The completion state of an entity. -/
def completion (s : Crowd) (e : Nat) : Completion := (s.entities e).binding.completion

/-- One entity and those who demand it get on. -/
def setEntity (s : Crowd) (e : Nat) (m : Demanded) : Crowd :=
  { s with entities := fun d => if d = e then m else s.entities d }

/-- The calls that a thread is in are these. -/
def setCurrent (s : Crowd) (t : Thread) (calls : List Call) : Crowd :=
  { s with current := fun u => if u = t then calls else s.current u }

/-- The thread is in no call, or runs a binder that refers to the entity. -/
def MayDemand (refers : Nat → Nat → Prop) (s : Crowd) (t : Thread) (e : Nat) : Prop :=
  ∀ c ∈ (s.current t).head?, s.phase c = .binding t ∧ refers c.entity e

/-- One step of one thread, which nothing comes between. Binders demand what they refer to, in any
order and as often as they like, and then return or fail. -/
inductive Step (refers : Nat → Nat → Prop) (s : Crowd) : Crowd → Prop where
  | demand {t : Thread} {c : Call} {m : Demanded} (h : s.MayDemand refers t c.entity)
      (hs : Contention.Step (s.entities c.entity) (.enter c.number t) m) :
      Step refers s ((s.setEntity c.entity m).setCurrent t (c :: s.current t))
  /-- The innermost call gets on. -/
  | act {t : Thread} {c : Call} {rest : List Call} {e : Event} {m : Demanded}
      (h : s.current t = c :: rest) (he : e.call = c.number)
      (hs : Contention.Step (s.entities c.entity) e m) : Step refers s (s.setEntity c.entity m)
  /-- The thread goes on behind a call that is over. -/
  | leave {t : Thread} {c : Call} {rest : List Call} (h : s.current t = c :: rest)
      (hover : (s.phase c).hasEnded = true) : Step refers s (s.setCurrent t rest)

/-- The innermost call of the thread sleeps until it is woken at this entity. -/
def WaitsAt (s : Crowd) (t : Thread) (e : Nat) : Prop :=
  ∃ k rest, s.current t = ⟨e, k⟩ :: rest ∧ s.phase ⟨e, k⟩ = .asleep t

/-- The one thread waits at an entity that the other is completing. -/
def WaitsFor (s : Crowd) (t t' : Thread) : Prop :=
  ∃ e, s.WaitsAt t e ∧ s.completion e = .inProgress t'

/-! ### What the steps change -/

variable {refers : Nat → Nat → Prop} {s s' : Crowd} {t t' u : Thread} {c d : Call} {e : Nat}
variable {m m' : Demanded} {rest : List Call} {ev : Event} {j : Nat}

@[simp] theorem setEntity_self : (s.setEntity e m).entities e = m := by simp [setEntity]

theorem setEntity_ne {d e : Nat} (h : d ≠ e) : (s.setEntity e m).entities d = s.entities d := by
  simp [setEntity, h]

@[simp] theorem setEntity_current : (s.setEntity e m).current = s.current := rfl

@[simp] theorem setCurrent_self : (s.setCurrent t rest).current t = rest := by simp [setCurrent]

theorem setCurrent_ne (h : u ≠ t) : (s.setCurrent t rest).current u = s.current u := by
  simp [setCurrent, h]

/-- What holds of the calls of one thread, and of those of another that were there before, holds of
the calls of each. -/
theorem setCurrent_of {P : List Call → Prop} (hself : u = t → P rest)
    (hother : u ≠ t → P (s.current u)) : P ((s.setCurrent t rest).current u) := by
  by_cases hu : u = t
  · subst hu
    rw [setCurrent_self]
    exact hself rfl
  · rw [setCurrent_ne hu]
    exact hother hu

@[simp] theorem setCurrent_phase : (s.setCurrent t rest).phase = s.phase := rfl

@[simp] theorem setCurrent_completion : (s.setCurrent t rest).completion = s.completion := rfl

/-- A step of one call leaves the others as they are, but that it may wake them. -/
theorem calls_step (hs : Contention.Step m ev m') (hj : j ≠ ev.call) :
    m'.calls j = m.calls j ∨ ∃ t, m.calls j = .asleep t ∧ m'.calls j = .looking t := by
  have hwake : m.wakeAll.calls j = m.calls j ∨
      ∃ t, m.calls j = .asleep t ∧ m.wakeAll.calls j = .looking t := by
    cases h : m.calls j with
    | asleep t => exact .inr ⟨t, rfl, wakeAll_of_asleep h⟩
    | _ => exact .inl (by simp [Demanded.wakeAll, h])
  cases hs with
  | @notifyStored k =>
    have hne : j ≠ k := hj
    rwa [setCall_ne hne]
  | @notifyReset k =>
    have hne : j ≠ k := hj
    rwa [setCall_ne hne]
  | enter => exact .inl (setCall_ne hj)
  | done => exact .inl (setCall_ne hj)
  | reentrant => exact .inl (setCall_ne hj)
  | wait => exact .inl (setCall_ne hj)
  | start => exact .inl (setCall_ne hj)
  | finish => exact .inl (setCall_ne hj)
  | abandon => exact .inl (setCall_ne hj)
  | wake => exact .inl (setCall_ne hj)

/-- A call that has been made stays with its thread. -/
theorem thread_step (hs : Contention.Step m ev m') (h : m.calls ev.call ≠ .outside) :
    (m'.calls ev.call).thread? = (m.calls ev.call).thread? := by
  cases hs with
  | enter hc => exact absurd hc h
  | done hc => simp [Event.call, hc, Phase.thread?]
  | reentrant hc => simp [Event.call, hc, Phase.thread?]
  | wait hc => simp [Event.call, hc, Phase.thread?]
  | start hc => simp [Event.call, hc, Phase.thread?]
  | finish hc => simp [Event.call, hc, Phase.thread?]
  | abandon hc => simp [Event.call, hc, Phase.thread?]
  | notifyStored hc => simp [Event.call, hc, Phase.thread?]
  | notifyReset hc => simp [Event.call, hc, Phase.thread?]
  | wake hc => simp [Event.call, hc, Phase.thread?]

/-- An entity comes to be in progress on a thread only as a call of this thread takes it. -/
theorem inProgress_step (hs : Contention.Step m ev m')
    (h : m'.binding.completion = .inProgress t) :
    m.binding.completion = .inProgress t ∨ m.calls ev.call = .looking t := by
  cases hs with
  | start hc =>
    cases h
    exact .inr hc
  | finish => cases h
  | abandon => cases h
  | enter => exact .inl h
  | done => exact .inl h
  | reentrant => exact .inl h
  | wait => exact .inl h
  | notifyStored => exact .inl h
  | notifyReset => exact .inl h
  | wake => exact .inl h

/-- A call falls asleep where another thread is in progress. -/
theorem asleep_step (hs : Contention.Step m ev m') (h : m'.calls ev.call = .asleep t) :
    m'.binding.completion ≠ .inProgress t := by
  cases hs with
  | wait hc hd =>
    obtain ⟨owner, hne, ho⟩ := Binding.demand_wait_iff.mp hd
    rw [Event.call, setCall_self] at h
    cases h
    rw [setCall_binding, ho]
    simpa using hne
  | enter => simp [Event.call] at h
  | done => simp [Event.call] at h
  | reentrant => simp [Event.call] at h
  | start => simp [Event.call] at h
  | finish => simp [Event.call] at h
  | abandon => simp [Event.call] at h
  | notifyStored => simp [Event.call] at h
  | notifyReset => simp [Event.call] at h
  | wake => simp [Event.call] at h

theorem enter_step {k : Nat} (hs : Contention.Step m (.enter k t) m') :
    m.calls k = .outside ∧ m' = m.setCall k (.looking t) := by
  cases hs with
  | enter h => exact ⟨h, rfl⟩

theorem number_ne (hd : d ≠ c) (he : d.entity = c.entity) : d.number ≠ c.number := fun hn =>
  hd (by cases c; cases d; simp_all)

theorem phase_setEntity_self : (s.setEntity c.entity m).phase c = m.calls c.number := by
  rw [phase, setEntity_self]

/-- What one call does leaves other calls as they are, but that it may wake them. -/
theorem phase_setEntity (hs : Contention.Step (s.entities c.entity) ev m)
    (hev : ev.call = c.number) (hd : d ≠ c) :
    (s.setEntity c.entity m).phase d = s.phase d ∨
      ∃ t, s.phase d = .asleep t ∧ (s.setEntity c.entity m).phase d = .looking t := by
  by_cases he : d.entity = c.entity
  · unfold phase
    rw [he, setEntity_self]
    exact calls_step hs (hev ▸ number_ne hd he)
  · exact .inl (by rw [phase, phase, setEntity_ne he])

/-- A call that moves alone leaves the others as they are. -/
theorem phase_setCall (hd : d ≠ c) {ph : Phase} :
    (s.setEntity c.entity ((s.entities c.entity).setCall c.number ph)).phase d = s.phase d := by
  by_cases he : d.entity = c.entity
  · unfold phase
    rw [he, setEntity_self, setCall_ne (number_ne hd he)]
  · rw [phase, phase, setEntity_ne he]

/-- The binder of one call goes on running while another call gets on. -/
theorem binding_setEntity (hs : Contention.Step (s.entities c.entity) ev m)
    (hev : ev.call = c.number) (hd : d ≠ c) (h : s.phase d = .binding t) :
    (s.setEntity c.entity m).phase d = .binding t := by
  rcases phase_setEntity hs hev hd with heq | ⟨u, hu, -⟩
  · rw [heq, h]
  · rw [h] at hu
    cases hu

/-- And the call stays with its thread. -/
theorem thread_setEntity (hs : Contention.Step (s.entities c.entity) ev m)
    (hev : ev.call = c.number) (hc : s.phase c ≠ .outside) (d : Call) :
    ((s.setEntity c.entity m).phase d).thread? = (s.phase d).thread? := by
  by_cases hd : d = c
  · subst hd
    rw [phase_setEntity_self, ← hev]
    unfold phase at hc ⊢
    rw [← hev] at hc ⊢
    exact thread_step hs hc
  · rcases phase_setEntity hs hev hd with heq | ⟨u, hu, hlook⟩
    · rw [heq]
    · rw [hu, hlook]
      rfl

theorem completion_setEntity (e : Nat) (h : m.binding = (s.entities c.entity).binding) :
    (s.setEntity c.entity m).completion e = s.completion e := by
  unfold completion
  by_cases he : e = c.entity
  · rw [he, setEntity_self, h]
  · rw [setEntity_ne he]

/-! ### What holds in every state -/

/-- The thread runs the binder of the outer call, and this refers to the entity of the inner one. -/
def Inside (refers : Nat → Nat → Prop) (s : Crowd) (t : Thread) (inner outer : Call) : Prop :=
  s.phase outer = .binding t ∧ refers outer.entity inner.entity

/-- What the calls of the threads have to do with one another. -/
structure Orderly (refers : Nat → Nat → Prop) (s : Crowd) : Prop where
  inv : ∀ e, Contention.Inv (s.entities e)
  own : ∀ t, ∀ c ∈ s.current t, (s.phase c).thread? = some t
  /-- A thread is in each call of its own that is not over. -/
  listed : ∀ t c, (s.phase c).thread? = some t → (s.phase c).hasEnded = false → c ∈ s.current t
  once : ∀ t, (s.current t).Nodup
  nested : ∀ t, (s.current t).IsChain (Inside refers s t)
  /-- Whoever sleeps has not the entity in progress. -/
  apart : ∀ t c, s.phase c = .asleep t → s.completion c.entity ≠ .inProgress t

theorem orderly_initial {b : Nat → Binding} (h : ∀ e, b e = .fresh ∨ ∃ d, b e = .completed d) :
    Orderly refers (.initial b) where
  inv e := inv_initial (h e)
  own t c hc := by cases hc
  listed t c hc := by cases hc
  once t := List.nodup_nil
  nested t := List.isChain_nil
  apart t c hc := by cases hc

namespace Orderly

/-- Around a call of a thread that is not the innermost one, the thread runs its binder. -/
theorem binding_of_mem_rest (ho : Orderly refers s) (h : s.current t = c :: rest) (hd : d ∈ rest) :
    s.phase d = .binding t := by
  have hchain := ho.nested t
  rw [h] at hchain
  clear h
  induction rest generalizing c with
  | nil => cases hd
  | cons outer rest ih =>
    obtain ⟨hin, hrest⟩ := List.isChain_cons_cons.mp hchain
    rcases List.mem_cons.mp hd with rfl | hd
    · exact hin.1
    · exact ih hd hrest

/-- The binders that a thread runs around a call refer to its entity, one through the other. -/
theorem refers_of_mem_rest (ho : Orderly refers s) (h : s.current t = c :: rest) (hd : d ∈ rest) :
    TransGen refers d.entity c.entity := by
  have hchain := ho.nested t
  rw [h] at hchain
  clear h
  induction rest generalizing c with
  | nil => cases hd
  | cons outer rest ih =>
    obtain ⟨hin, hrest⟩ := List.isChain_cons_cons.mp hchain
    rcases List.mem_cons.mp hd with rfl | hd
    · exact .single hin.2
    · exact (ih hd hrest).tail hin.2

/-- A call of a thread that neither runs a binder nor is over is its innermost one. -/
theorem eq_head (ho : Orderly refers s) (h : s.current t = c :: rest)
    (ht : (s.phase d).thread? = some t) (hover : (s.phase d).hasEnded = false)
    (hidle : s.phase d ≠ .binding t) : d = c := by
  have hmem := ho.listed t d ht hover
  rw [h] at hmem
  rcases List.mem_cons.mp hmem with hd | hd
  · exact hd
  · exact absurd (ho.binding_of_mem_rest h hd) hidle

/-- A call that nobody has made is none that a thread is in. -/
theorem ne_of_outside (ho : Orderly refers s) (h : s.phase c = .outside) (hd : d ∈ s.current t) :
    d ≠ c := by
  rintro rfl
  have hown := ho.own t d hd
  rw [h] at hown
  cases hown

theorem inv_setEntity (ho : Orderly refers s) (hs : Contention.Step (s.entities c.entity) ev m)
    (e : Nat) : Contention.Inv ((s.setEntity c.entity m).entities e) := by
  by_cases he : e = c.entity
  · rw [he, setEntity_self]
    exact inv_step (ho.inv c.entity) hs
  · rw [setEntity_ne he]
    exact ho.inv e

/-- A call that is made changes the phase of no call that a thread is in. -/
theorem phase_of_mem (ho : Orderly refers s) (hout : s.phase c = .outside)
    (hd : d ∈ s.current u) {ph : Phase} :
    (s.setEntity c.entity ((s.entities c.entity).setCall c.number ph)).phase d = s.phase d :=
  phase_setCall (ho.ne_of_outside hout hd)

/-- A thread makes a call. -/
theorem demand (ho : Orderly refers s) (hmay : s.MayDemand refers t c.entity)
    (hs : Contention.Step (s.entities c.entity) (.enter c.number t) m) :
    Orderly refers ((s.setEntity c.entity m).setCurrent t (c :: s.current t)) := by
  obtain ⟨hout, rfl⟩ := enter_step hs
  set s₁ := s.setEntity c.entity ((s.entities c.entity).setCall c.number (.looking t)) with hs₁
  have hc : s₁.phase c = .looking t := by rw [hs₁, phase_setEntity_self, setCall_self]
  have hother : ∀ d, d ≠ c → s₁.phase d = s.phase d := fun d hd => phase_setCall hd
  have hold : ∀ u, ∀ d ∈ s.current u, s₁.phase d = s.phase d :=
    fun u d hd => ho.phase_of_mem hout hd
  have hown : ∀ u, ∀ d ∈ s.current u, (s₁.phase d).thread? = some u := fun u d hd => by
    rw [hold u d hd]
    exact ho.own u d hd
  have hchain : ∀ u, (s.current u).IsChain (Inside refers s₁ u) := fun u =>
    (ho.nested u).imp_of_mem_imp fun _ outer _ houter h => ⟨(hold u outer houter).trans h.1, h.2⟩
  constructor
  · exact fun e => ho.inv_setEntity hs e
  · intro u
    refine setCurrent_of (P := fun calls => ∀ d ∈ calls, (s₁.phase d).thread? = some u)
      (fun hu => ?_) fun _ => hown u
    subst hu
    exact List.forall_mem_cons.mpr ⟨by rw [hc]; rfl, hown u⟩
  · intro u d hd hover
    rw [setCurrent_phase] at hd hover
    by_cases hdc : d = c
    · subst hdc
      rw [hc] at hd
      cases hd
      rw [setCurrent_self]
      exact List.mem_cons_self
    · rw [hother d hdc] at hd hover
      have hmem := ho.listed u d hd hover
      exact setCurrent_of (P := (d ∈ ·)) (fun hu => List.mem_cons_of_mem c (hu ▸ hmem))
        fun _ => hmem
  · intro u
    refine setCurrent_of (fun hu => ?_) fun _ => ho.once u
    exact List.nodup_cons.mpr ⟨fun hmem => ho.ne_of_outside hout hmem rfl, ho.once t⟩
  · intro u
    refine setCurrent_of (P := List.IsChain (Inside refers s₁ u)) (fun hu => ?_) fun _ => hchain u
    subst hu
    cases hcurrent : s.current u with
    | nil => exact List.isChain_singleton c
    | cons outer rest =>
      obtain ⟨hbinding, hrefers⟩ := hmay outer (by simp [hcurrent])
      have hmem : outer ∈ s.current u := by simp [hcurrent]
      refine List.isChain_cons_cons.mpr ⟨⟨(hold u outer hmem).trans hbinding, hrefers⟩, ?_⟩
      exact hcurrent ▸ hchain u
  · intro u d hd
    rw [setCurrent_phase] at hd
    have hdc : d ≠ c := by
      rintro rfl
      rw [hc] at hd
      cases hd
    rw [hother d hdc] at hd
    rw [setCurrent_completion, hs₁, completion_setEntity d.entity setCall_binding]
    exact ho.apart u d hd

/-- While one call gets on, no thread that sleeps at its entity comes to have it in progress. -/
theorem apart_act (ho : Orderly refers s) (h : s.current t = c :: rest) (hev : ev.call = c.number)
    (hs : Contention.Step (s.entities c.entity) ev m)
    (hd : (s.setEntity c.entity m).phase d = .asleep u) :
    (s.setEntity c.entity m).completion d.entity ≠ .inProgress u := by
  by_cases hdc : d = c
  · subst hdc
    rw [phase_setEntity_self, ← hev] at hd
    rw [completion, setEntity_self]
    exact asleep_step hs hd
  have hasleep : s.phase d = .asleep u := by
    rcases phase_setEntity hs hev hdc with heq | ⟨v, -, hlook⟩
    · rwa [heq] at hd
    · rw [hlook] at hd
      cases hd
  by_cases he : d.entity = c.entity
  · intro hprogress
    rw [completion, he, setEntity_self] at hprogress
    rcases inProgress_step hs hprogress with hbefore | hlook
    · refine ho.apart u d hasleep ?_
      rwa [completion, he]
    · -- the call that takes the entity is not the innermost one of a thread that sleeps
      have hown := ho.own t c (by simp [h])
      rw [hev] at hlook
      rw [phase, hlook] at hown
      cases hown
      exact hdc (ho.eq_head h (by rw [hasleep]; rfl) (by rw [hasleep]; rfl)
        (by rw [hasleep]; simp))
  · rw [completion, setEntity_ne he]
    exact ho.apart u d hasleep

/-- The innermost call of a thread gets on. -/
theorem act (ho : Orderly refers s) (h : s.current t = c :: rest) (hev : ev.call = c.number)
    (hs : Contention.Step (s.entities c.entity) ev m) :
    Orderly refers (s.setEntity c.entity m) := by
  have hmem : c ∈ s.current t := by simp [h]
  have hown := ho.own t c hmem
  have hc : s.phase c ≠ .outside := fun hout => ho.ne_of_outside hout hmem rfl
  have hthread := thread_setEntity hs hev hc
  constructor
  · exact ho.inv_setEntity hs
  · intro u d hd
    rw [hthread]
    exact ho.own u d hd
  · intro u d hd hover
    rw [hthread] at hd
    by_cases hdc : d = c
    · subst hdc
      rw [hown] at hd
      cases hd
      exact hmem
    · refine ho.listed u d hd ?_
      rcases phase_setEntity hs hev hdc with heq | ⟨v, hv, -⟩
      · rwa [heq] at hover
      · rw [hv]
        rfl
  · exact ho.once
  · intro u
    refine (ho.nested u).imp_of_mem_tail_imp fun inner outer _ houter hin => ⟨?_, hin.2⟩
    refine binding_setEntity hs hev ?_ hin.1
    -- the innermost call of a thread is around no other
    rintro rfl
    have hut : u = t := by
      rw [hin.1] at hown
      exact Option.some.inj hown
    subst hut
    have hnodup := ho.once u
    rw [setEntity_current, h] at houter
    rw [h] at hnodup
    exact (List.nodup_cons.mp hnodup).1 houter
  · exact fun u d hd => ho.apart_act h hev hs hd

/-- A thread goes on behind a call that is over. -/
theorem leave (ho : Orderly refers s) (h : s.current t = c :: rest)
    (hover : (s.phase c).hasEnded = true) : Orderly refers (s.setCurrent t rest) := by
  have hsub : ∀ u, (s.setCurrent t rest).current u <:+ s.current u := fun u =>
    setCurrent_of (P := (· <:+ s.current u)) (fun hu => hu ▸ h ▸ List.suffix_cons c rest)
      fun _ => List.suffix_refl (s.current u)
  constructor
  · exact ho.inv
  · exact fun u d hd => ho.own u d ((hsub u).subset hd)
  · intro u d hd hdone
    have hmem := ho.listed u d hd hdone
    refine setCurrent_of (P := (d ∈ ·)) (fun hu => ?_) fun _ => hmem
    rw [hu, h] at hmem
    refine (List.mem_cons.mp hmem).resolve_left ?_
    rintro rfl
    rw [setCurrent_phase, hover] at hdone
    cases hdone
  · exact fun u => (ho.once u).sublist (hsub u).sublist
  · exact fun u => (ho.nested u).suffix (hsub u)
  · exact ho.apart

end Orderly

theorem orderly_step (ho : Orderly refers s) (hs : Step refers s s') : Orderly refers s' := by
  cases hs with
  | demand hmay hs => exact ho.demand hmay hs
  | act h hev hs => exact ho.act h hev hs
  | leave h hover => exact ho.leave h hover

theorem orderly_run {b : Nat → Binding} (hb : ∀ e, b e = .fresh ∨ ∃ d, b e = .completed d)
    (h : ReflTransGen (Step refers) (.initial b) s) : Orderly refers s := by
  induction h with
  | refl => exact orderly_initial hb
  | tail _ hs ih => exact orderly_step ih hs

/-- Each entity takes part by the steps of those who demand it. -/
theorem entity_step (hs : Step refers s s') (e : Nat) :
    s'.entities e = s.entities e ∨ ∃ ev, Contention.Step (s.entities e) ev (s'.entities e) := by
  have hset : ∀ {d : Nat} {ev : Event} {m : Demanded}, Contention.Step (s.entities d) ev m →
      (s.setEntity d m).entities e = s.entities e ∨
        ∃ ev, Contention.Step (s.entities e) ev ((s.setEntity d m).entities e) := by
    intro d ev m hs
    by_cases he : e = d
    · subst he
      rw [setEntity_self]
      exact .inr ⟨ev, hs⟩
    · exact .inl (setEntity_ne he)
  cases hs with
  | demand _ hs => exact hset hs
  | act _ _ hs => exact hset hs
  | leave => exact .inl rfl

/-- So each entity of a crowd goes through a run of its own, whatever else the threads do. -/
theorem entity_run {b : Nat → Binding} (h : ReflTransGen (Step refers) (.initial b) s) (e : Nat) :
    ∃ past, Contention.Run (.initial (b e)) past (s.entities e) := by
  induction h with
  | refl => exact ⟨[], .refl⟩
  | tail _ hs ih =>
    obtain ⟨past, hr⟩ := ih
    rcases entity_step hs e with heq | ⟨ev, hstep⟩
    · exact ⟨past, heq ▸ hr⟩
    · exact ⟨ev :: past, hr.step hstep⟩

/-! ### Circles -/

/-- No thread waits for itself. -/
theorem Orderly.not_waitsFor_self (ho : Orderly refers s) : ¬ s.WaitsFor t t := by
  rintro ⟨e, ⟨k, rest, -, hasleep⟩, hprogress⟩
  exact ho.apart t ⟨e, k⟩ hasleep hprogress

/-- What a thread has in progress refers to what it waits at. -/
theorem Orderly.refers_of_waits (ho : Orderly refers s) {e e' : Nat}
    (hprogress : s.completion e = .inProgress t) (hwaits : s.WaitsAt t e') :
    TransGen refers e e' := by
  obtain ⟨k', rest, hcurrent, hasleep⟩ := hwaits
  obtain ⟨k, hk⟩ := (ho.inv e).owner t hprogress
  have hphase : s.phase ⟨e, k⟩ = .binding t := hk
  have hmem := ho.listed t ⟨e, k⟩ (by rw [hphase]; rfl) (by rw [hphase]; rfl)
  rw [hcurrent] at hmem
  rcases List.mem_cons.mp hmem with heq | hmem
  · rw [heq, hasleep] at hphase
    cases hphase
  · exact ho.refers_of_mem_rest hcurrent hmem

/-- A thread waits at one entity. -/
theorem WaitsAt.unique {e e' : Nat} (h : s.WaitsAt t e) (h' : s.WaitsAt t e') : e = e' := by
  obtain ⟨k, rest, hcurrent, -⟩ := h
  obtain ⟨k', rest', hcurrent', -⟩ := h'
  rw [hcurrent] at hcurrent'
  simp_all

/-- Along waiting threads, what the first has in progress refers to what the last waits at. -/
theorem Orderly.refers_of_chain (ho : Orderly refers s) {e e' : Nat}
    (hprogress : s.completion e = .inProgress t) (h : ReflTransGen s.WaitsFor t u)
    (hwaits : s.WaitsAt u e') : TransGen refers e e' := by
  induction h generalizing e' with
  | refl => exact ho.refers_of_waits hprogress hwaits
  | tail _ hw ih =>
    obtain ⟨d, hat, howner⟩ := hw
    exact (ih hat).trans (ho.refers_of_waits howner hwaits)

/-- In a circle of waiting threads, two entities refer to one another. -/
theorem Orderly.refers_of_circle (ho : Orderly refers s) (h : TransGen s.WaitsFor t t) :
    ∃ e e', e ≠ e' ∧ TransGen refers e e' ∧ TransGen refers e' e := by
  obtain ⟨t', hfirst, hback⟩ := TransGen.head'_iff.mp h
  have hne : t' ≠ t := by
    rintro rfl
    exact ho.not_waitsFor_self hfirst
  obtain ⟨t'', hsecond, hrest⟩ := (ReflTransGen.cases_head hback).resolve_left hne
  obtain ⟨e, hat, howner⟩ := hfirst
  obtain ⟨e', hat', howner'⟩ := hsecond
  refine ⟨e, e', ?_, ho.refers_of_waits howner hat', ?_⟩
  · rintro rfl
    rw [howner] at howner'
    cases howner'
    exact ho.not_waitsFor_self ⟨e, hat', howner⟩
  · exact ho.refers_of_chain howner' hrest hat

/-- The innermost call of the thread looks at its entity, or sleeps there. -/
def Idles (s : Crowd) (t : Thread) (c : Call) : Prop :=
  (∃ rest, s.current t = c :: rest) ∧ (s.phase c = .looking t ∨ s.phase c = .asleep t)

/-- Each of these calls idles at an entity that is in progress on another of these threads. -/
def Stuck (s : Crowd) (waits : Thread → Call → Prop) : Prop :=
  ∀ t c, waits t c → s.Idles t c ∧
    ∃ t' c', t' ≠ t ∧ waits t' c' ∧ s.completion c.entity = .inProgress t'

theorem Idles.phase_ne (h : s.Idles t c) :
    s.phase c ≠ .binding u ∧ (s.phase c).hasEnded = false := by
  rcases h.2 with hph | hph <;> simp [hph, Phase.hasEnded]

/-- The threads of a circle are stuck. -/
theorem Orderly.stuck_of_circle (ho : Orderly refers s) :
    s.Stuck fun u c => (∃ rest, s.current u = c :: rest) ∧ s.phase c = .asleep u ∧
      TransGen s.WaitsFor u u := by
  rintro u c ⟨hcurrent, hasleep, hcircle⟩
  refine ⟨⟨hcurrent, .inr hasleep⟩, ?_⟩
  obtain ⟨u', hfirst, hback⟩ := TransGen.head'_iff.mp hcircle
  have hcircle' : TransGen s.WaitsFor u' u' := TransGen.tail'_iff.mpr ⟨u, hback, hfirst⟩
  obtain ⟨u'', ⟨e', ⟨k', rest', hcurrent', hasleep'⟩, -⟩, -⟩ := TransGen.head'_iff.mp hcircle'
  obtain ⟨e, hat, howner⟩ := hfirst
  obtain ⟨rest, hcurrent⟩ := hcurrent
  obtain rfl : e = c.entity := hat.unique ⟨c.number, rest, hcurrent, hasleep⟩
  refine ⟨u', ⟨e', k'⟩, ?_, ⟨⟨rest', hcurrent'⟩, hasleep', hcircle'⟩, howner⟩
  rintro rfl
  exact ho.not_waitsFor_self ⟨c.entity, hat, howner⟩

/-- While the entity is in progress on another thread, a call that looks or sleeps can only look and
sleep. -/
theorem looking_or_asleep_step (hs : Contention.Step m ev m')
    (hph : m.calls ev.call = .looking t ∨ m.calls ev.call = .asleep t)
    (hprogress : m.binding.completion = .inProgress t') (hne : t' ≠ t) :
    m'.calls ev.call = .looking t ∨ m'.calls ev.call = .asleep t := by
  have hdemand : m.binding.demand t = .wait := Binding.demand_wait_iff.mpr ⟨t', hne, hprogress⟩
  cases hs with
  | wait hc => simp_all [Event.call]
  | wake hc => simp_all [Event.call]
  | done hc hd => simp_all [Event.call]
  | reentrant hc hd => simp_all [Event.call]
  | start hc hd => simp_all [Event.call]
  | enter hc => simp [Event.call, hc] at hph
  | finish hc => simp [Event.call, hc] at hph
  | abandon hc => simp [Event.call, hc] at hph
  | notifyStored hc => simp [Event.call, hc] at hph
  | notifyReset hc => simp [Event.call, hc] at hph

/-- An entity in progress stays so until the call that runs its binder gets on. -/
theorem inProgress_stays (hi : Contention.Inv m) (hs : Contention.Step m ev m')
    (hprogress : m.binding.completion = .inProgress t) (hne : m.calls ev.call ≠ .binding t) :
    m'.binding.completion = .inProgress t := by
  cases hs with
  | start _ hd => cases (Binding.demand_start_iff.mp hd).symm.trans hprogress
  | finish hc =>
    cases (hi.running _ _ hc).symm.trans hprogress
    exact absurd hc hne
  | abandon hc =>
    cases (hi.running _ _ hc).symm.trans hprogress
    exact absurd hc hne
  | enter => exact hprogress
  | done => exact hprogress
  | reentrant => exact hprogress
  | wait => exact hprogress
  | notifyStored => exact hprogress
  | notifyReset => exact hprogress
  | wake => exact hprogress

/-- A call is a call of one thread. -/
theorem Orderly.thread_unique (ho : Orderly refers s) (hc : c ∈ s.current t)
    (hc' : c ∈ s.current u) : t = u := by
  have hown := ho.own t c hc
  rw [ho.own u c hc'] at hown
  exact (Option.some.inj hown).symm

/-- A call that idles where another thread is in progress goes on idling. -/
theorem idles_step (ho : Orderly refers s) (h : s.Idles t c)
    (hprogress : s.completion c.entity = .inProgress t') (hne : t' ≠ t) (hs : Step refers s s') :
    s'.Idles t c := by
  obtain ⟨⟨rest, hcurrent⟩, hph⟩ := id h
  have hmem : c ∈ s.current t := by simp [hcurrent]
  cases hs with
  | @demand u d m hmay hs =>
    obtain ⟨hout, rfl⟩ := enter_step hs
    have hut : t ≠ u := by
      rintro rfl
      exact h.phase_ne.1 (hmay c (by simp [hcurrent])).1
    refine ⟨⟨rest, (setCurrent_ne hut).trans hcurrent⟩, ?_⟩
    rwa [setCurrent_phase, ho.phase_of_mem hout hmem]
  | @act u d rest' ev m hd hev hs =>
    refine ⟨⟨rest, hcurrent⟩, ?_⟩
    by_cases hut : t = u
    · subst hut
      obtain rfl : c = d := (List.cons.inj (hcurrent.symm.trans hd)).1
      have hcall : (s.entities c.entity).calls ev.call = s.phase c := by rw [hev, phase]
      have hph' := looking_or_asleep_step hs (hcall ▸ hph) hprogress hne
      rwa [hev, ← phase_setEntity_self] at hph'
    · have hcd : c ≠ d := by
        rintro rfl
        exact hut (ho.thread_unique hmem (by simp [hd]))
      rcases phase_setEntity hs hev hcd with heq | ⟨v, hv, hlook⟩
      · rwa [heq]
      · obtain rfl : v = t := by
          rcases hph with hph | hph <;> simp_all
        exact .inl hlook
  | @leave u d rest' hd hover =>
    have hut : t ≠ u := by
      rintro rfl
      obtain rfl : c = d := (List.cons.inj (hcurrent.symm.trans hd)).1
      rw [h.phase_ne (u := t) |>.2] at hover
      cases hover
    exact ⟨⟨rest, (setCurrent_ne hut).trans hcurrent⟩, hph⟩

/-- What a thread has in progress stays so while its innermost call idles. -/
theorem inProgress_of_idles (ho : Orderly refers s) (h : s.Idles t c)
    (hprogress : s.completion e = .inProgress t) (hs : Step refers s s') :
    s'.completion e = .inProgress t := by
  cases hs with
  | @demand u d m hmay hs =>
    obtain ⟨-, rfl⟩ := enter_step hs
    rwa [setCurrent_completion, completion_setEntity e setCall_binding]
  | @act u d rest' ev m hd hev hs =>
    by_cases he : e = d.entity
    · subst he
      rw [completion, setEntity_self]
      refine inProgress_stays (ho.inv d.entity) hs hprogress fun hbinding => ?_
      -- the call that would get on is the innermost one of this thread, which idles
      rw [hev] at hbinding
      have hown := ho.own u d (by simp [hd])
      rw [phase, hbinding] at hown
      cases hown
      obtain ⟨rest, hcurrent⟩ := h.1
      obtain rfl : c = d := (List.cons.inj (hcurrent.symm.trans hd)).1
      exact h.phase_ne.1 hbinding
    · rwa [completion, setEntity_ne he]
  | leave => exact hprogress

/-- Whatever threads do, those that are stuck stay stuck, in the same calls. -/
theorem stuck_step {waits : Thread → Call → Prop} (ho : Orderly refers s) (h : s.Stuck waits)
    (hs : Step refers s s') : s'.Stuck waits := by
  intro t c hw
  obtain ⟨hidles, t', c', hne, hw', hprogress⟩ := h t c hw
  exact ⟨idles_step ho hidles hprogress hne hs, t', c', hne, hw',
    inProgress_of_idles ho (h t' c' hw').1 hprogress hs⟩

theorem stuck_run {waits : Thread → Call → Prop} (ho : Orderly refers s) (h : s.Stuck waits)
    (hr : ReflTransGen (Step refers) s s') : s'.Stuck waits := by
  have hboth : Orderly refers s' ∧ s'.Stuck waits := by
    induction hr with
    | refl => exact ⟨ho, h⟩
    | tail _ hs ih => exact ⟨orderly_step ih.1 hs, stuck_step ih.1 ih.2 hs⟩
  exact hboth.2

/-- **Circles of waiting threads.** Threads come to wait in a circle only where two entities refer
to one another, and then what they wait at is never completed. -/
theorem circle_of_waits {b : Nat → Binding} (hb : ∀ e, b e = .fresh ∨ ∃ d, b e = .completed d)
    (hr : ReflTransGen (Step refers) (.initial b) s) (h : TransGen s.WaitsFor t t) :
    (∃ e e', e ≠ e' ∧ TransGen refers e e' ∧ TransGen refers e' e) ∧
      ∃ e, s.WaitsAt t e ∧ ∀ s', ReflTransGen (Step refers) s s' →
        (∃ k rest, s'.current t = ⟨e, k⟩ :: rest) ∧ ∀ data, s'.completion e ≠ .complete data := by
  have ho := orderly_run hb hr
  refine ⟨ho.refers_of_circle h, ?_⟩
  obtain ⟨t', ⟨e, ⟨k, rest, hcurrent, hasleep⟩, -⟩, -⟩ := TransGen.head'_iff.mp h
  refine ⟨e, ⟨k, rest, hcurrent, hasleep⟩, fun s' hr' => ?_⟩
  obtain ⟨⟨⟨rest', hcurrent'⟩, -⟩, t'', -, -, -, hprogress⟩ :=
    stuck_run ho ho.stuck_of_circle hr' t ⟨e, k⟩ ⟨⟨rest, hcurrent⟩, hasleep, h⟩
  refine ⟨⟨k, rest', hcurrent'⟩, fun data hdata => ?_⟩
  rw [hprogress] at hdata
  cases hdata

/-! ### Two binders that face one another -/

/-- The thread makes the call. -/
def enters (s : Crowd) (t : Thread) (c : Call) : Crowd :=
  (s.setEntity c.entity ((s.entities c.entity).setCall c.number (.looking t))).setCurrent t
    (c :: s.current t)

/-- The call takes the entity. -/
def takes (s : Crowd) (t : Thread) (c : Call) : Crowd :=
  s.setEntity c.entity (Demanded.setCall
    { s.entities c.entity with binding := (s.entities c.entity).binding.start t } c.number
      (.binding t))

/-- The call goes to sleep. -/
def sleeps (s : Crowd) (t : Thread) (c : Call) : Crowd :=
  s.setEntity c.entity ((s.entities c.entity).setCall c.number (.asleep t))

theorem step_enters (hmay : s.MayDemand refers t c.entity) (h : s.phase c = .outside) :
    Step refers s (s.enters t c) := .demand hmay (.enter h)

theorem step_takes (hc : s.current t = c :: rest) (h : s.phase c = .looking t)
    (hd : (s.entities c.entity).binding.demand t = .start) : Step refers s (s.takes t c) :=
  .act hc rfl (.start h hd)

theorem step_sleeps (hc : s.current t = c :: rest) (h : s.phase c = .looking t)
    (hd : (s.entities c.entity).binding.demand t = .wait) : Step refers s (s.sleeps t c) :=
  .act hc rfl (.wait h hd)

/-- The first two entities refer to one another. -/
def Facing (e e' : Nat) : Prop := e + e' = 1

/-- Thread 1 runs the binder of the first entity and thread 2 that of the second. -/
def facingBegun : Crowd :=
  ((((initial fun _ => .fresh).enters 1 ⟨0, 0⟩).takes 1 ⟨0, 0⟩).enters 2 ⟨1, 0⟩).takes 2 ⟨1, 0⟩

/-- Then each demands the entity of the other. -/
def facingMet : Crowd :=
  (((facingBegun.enters 1 ⟨1, 1⟩).sleeps 1 ⟨1, 1⟩).enters 2 ⟨0, 1⟩).sleeps 2 ⟨0, 1⟩

theorem facingMet_reached : ReflTransGen (Step Facing) (.initial fun _ => .fresh) facingMet := by
  have h₁ : ReflTransGen (Step Facing) (.initial fun _ => .fresh) _ :=
    .single (step_enters (t := 1) (c := ⟨0, 0⟩) (fun _ h => by cases h) rfl)
  have h₂ := h₁.tail (step_takes (t := 1) (c := ⟨0, 0⟩) rfl rfl rfl)
  have h₃ := h₂.tail (step_enters (t := 2) (c := ⟨1, 0⟩) (fun _ h => by cases h) rfl)
  have h₄ := h₃.tail (step_takes (t := 2) (c := ⟨1, 0⟩) rfl rfl rfl)
  have h₅ := h₄.tail (step_enters (t := 1) (c := ⟨1, 1⟩)
    (fun _ h => by cases h; exact ⟨rfl, rfl⟩) rfl)
  have h₆ := h₅.tail (step_sleeps (t := 1) (c := ⟨1, 1⟩) rfl rfl rfl)
  have h₇ := h₆.tail (step_enters (t := 2) (c := ⟨0, 1⟩)
    (fun _ h => by cases h; exact ⟨rfl, rfl⟩) rfl)
  exact h₇.tail (step_sleeps (t := 2) (c := ⟨0, 1⟩) rfl rfl rfl)

theorem facingMet_waits : facingMet.WaitsFor 1 2 ∧ facingMet.WaitsFor 2 1 :=
  ⟨⟨1, ⟨1, _, rfl, rfl⟩, rfl⟩, ⟨0, ⟨1, _, rfl, rfl⟩, rfl⟩⟩

/-- So thread 1 waits for an entity that will never be completed. -/
theorem facing_circle :
    ReflTransGen (Step Facing) (.initial fun _ => .fresh) facingMet ∧
      TransGen facingMet.WaitsFor 1 1 ∧ facingMet.WaitsAt 1 1 ∧
      ∀ s', ReflTransGen (Step Facing) facingMet s' → ∀ data, s'.completion 1 ≠ .complete data := by
  have hcircle : TransGen facingMet.WaitsFor 1 1 :=
    .tail (.single facingMet_waits.1) facingMet_waits.2
  obtain ⟨-, e, hat, hnever⟩ := circle_of_waits (fun _ => .inl rfl) facingMet_reached hcircle
  have hone : facingMet.WaitsAt 1 1 := ⟨1, _, rfl, rfl⟩
  obtain rfl := hat.unique hone
  exact ⟨facingMet_reached, hcircle, hone, fun s' hr => (hnever s' hr).2⟩

/-- Threads can come to wait in a circle. -/
theorem facing_binders_wait :
    ∃ s, ReflTransGen (Step Facing) (.initial fun _ => .fresh) s ∧
      s.WaitsFor 1 2 ∧ s.WaitsFor 2 1 :=
  ⟨facingMet, facingMet_reached, facingMet_waits⟩

end Crowd
end Contention
end Deferral
