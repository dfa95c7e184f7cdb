/-
# One binder at a time, under any interleaving

A call that demands an entity looks at its state, and returns, waits, or takes it and runs the
binder; when the run ends, its data is stored or the state is put back, and then those who wait are
woken and look again. Calls of any number of threads take these steps in any order here, calls
that a thread makes while it runs the binder among them, and a wait may also end by itself. At most
one run is active, it is the run of whoever the entity is in progress on, and what the one run that
returned has stored stays.

Key definitions: `Contention.Phase`, `Contention.Demanded`, `Contention.Step`, `Contention.Run`,
`Contention.Binds`.
Key theorems: `Contention.inv_step`, `Contention.run_binds`, `Contention.force_steps`.
-/
import Deferral.Proofs.Conduct

namespace Deferral
namespace Contention

/-! ### Calls and their steps -/

/-- How far a call has come, and the thread that makes it. -/
inductive Phase where
  | outside
  | looking (t : Thread)
  | asleep (t : Thread)
  /-- It runs the binder. -/
  | binding (t : Thread)
  /-- The binder has returned, its data is stored, and nobody is woken yet. -/
  | stored (t : Thread)
  /-- The binder has failed, the state is put back, and nobody is woken yet. -/
  | reset (t : Thread)
  | returned (t : Thread)
  /-- It has returned because its own thread runs the binder. -/
  | reentered (t : Thread)
  /-- It has failed with the binder. -/
  | unwound (t : Thread)
deriving DecidableEq

/-- An entity with those who demand it. -/
structure Demanded where
  binding : Binding
  calls : Nat → Phase

namespace Demanded

/-- Nobody has demanded the entity yet. -/
def initial (b : Binding) : Demanded := ⟨b, fun _ => .outside⟩

/-- Call `k` gets to the phase `ph`. -/
def setCall (m : Demanded) (k : Nat) (ph : Phase) : Demanded :=
  { m with calls := fun j => if j = k then ph else m.calls j }

/-- Whoever waits will look again. -/
def wakeAll (m : Demanded) : Demanded :=
  { m with calls := fun j =>
      match m.calls j with
      | .asleep t => .looking t
      | ph => ph }

end Demanded

/-- What happens, to which call. -/
inductive Event where
  | enter (k : Nat) (t : Thread)
  /-- The call examines the state, with this result. -/
  | look (k : Nat) (found : Demand)
  | finish (k : Nat) (data : Attributes)
  | abandon (k : Nat)
  | notify (k : Nat)
  /-- A wait ends by itself. -/
  | wake (k : Nat)
deriving DecidableEq

/-- One step of one call, which nothing comes between. -/
inductive Step (m : Demanded) : Event → Demanded → Prop where
  | enter {k : Nat} {t : Thread} (h : m.calls k = .outside) :
      Step m (.enter k t) (m.setCall k (.looking t))
  | done {k : Nat} {t : Thread} (h : m.calls k = .looking t) (hd : m.binding.demand t = .done) :
      Step m (.look k .done) (m.setCall k (.returned t))
  | reentrant {k : Nat} {t : Thread} (h : m.calls k = .looking t)
      (hd : m.binding.demand t = .reentrant) :
      Step m (.look k .reentrant) (m.setCall k (.reentered t))
  | wait {k : Nat} {t : Thread} (h : m.calls k = .looking t) (hd : m.binding.demand t = .wait) :
      Step m (.look k .wait) (m.setCall k (.asleep t))
  | start {k : Nat} {t : Thread} (h : m.calls k = .looking t) (hd : m.binding.demand t = .start) :
      Step m (.look k .start)
        (Demanded.setCall { m with binding := m.binding.start t } k (.binding t))
  | finish {k : Nat} {t : Thread} {d : Attributes} (h : m.calls k = .binding t) :
      Step m (.finish k d)
        (Demanded.setCall { m with binding := m.binding.finish d } k (.stored t))
  | abandon {k : Nat} {t : Thread} (h : m.calls k = .binding t) :
      Step m (.abandon k)
        (Demanded.setCall { m with binding := m.binding.abandon } k (.reset t))
  | notifyStored {k : Nat} {t : Thread} (h : m.calls k = .stored t) :
      Step m (.notify k) (m.wakeAll.setCall k (.returned t))
  | notifyReset {k : Nat} {t : Thread} (h : m.calls k = .reset t) :
      Step m (.notify k) (m.wakeAll.setCall k (.unwound t))
  | wake {k : Nat} {t : Thread} (h : m.calls k = .asleep t) :
      Step m (.wake k) (m.setCall k (.looking t))

/-- From one state to another, by events of which the latest comes first. -/
inductive Run (m : Demanded) : List Event → Demanded → Prop where
  | refl : Run m [] m
  | step {past : List Event} {m' m'' : Demanded} {e : Event} (h : Run m past m')
      (hs : Step m' e m'') : Run m (e :: past) m''

/-- The runs of the binder that have been started. -/
def started (past : List Event) : Nat :=
  past.countP fun
    | .look _ .start => true
    | _ => false

/-- The runs of the binder that have failed. -/
def failures (past : List Event) : Nat :=
  past.countP fun
    | .abandon _ => true
    | _ => false

/-- What the runs that have returned gave. -/
def results (past : List Event) : List Attributes :=
  past.filterMap fun
    | .finish _ d => some d
    | _ => none

/-! ### What the steps change -/

section

variable {m m' : Demanded} {e : Event} {past : List Event} {j k : Nat} {ph : Phase} {t : Thread}

@[simp] theorem setCall_binding : (m.setCall k ph).binding = m.binding := rfl

@[simp] theorem setCall_self : (m.setCall k ph).calls k = ph := by simp [Demanded.setCall]

theorem setCall_ne (h : j ≠ k) : (m.setCall k ph).calls j = m.calls j := by
  simp [Demanded.setCall, h]

theorem wakeAll_ne_asleep : m.wakeAll.calls j ≠ .asleep t := by
  unfold Demanded.wakeAll
  dsimp only
  split
  · simp
  · rename_i hne
    exact fun h => hne t h

theorem wakeAll_of_asleep (h : m.calls j = .asleep t) : m.wakeAll.calls j = .looking t := by
  simp [Demanded.wakeAll, h]

/-- Waking changes nothing for those who are neither asleep nor looking. -/
theorem wakeAll_eq_iff (ha : ∀ t, ph ≠ .asleep t) (hl : ∀ t, ph ≠ .looking t) :
    m.wakeAll.calls j = ph ↔ m.calls j = ph := by
  unfold Demanded.wakeAll
  dsimp only
  split
  · rename_i t h
    rw [h]
    exact ⟨fun h => absurd h.symm (hl t), fun h => absurd h.symm (ha t)⟩
  · exact Iff.rfl

end

/-! ### What holds in every state -/

/-- Somebody will wake those who wait. -/
def Demanded.Awaited (m : Demanded) : Prop :=
  match m.binding.completion with
  | .notStarted => ∃ k t, m.calls k = .reset t
  | .inProgress _ => True
  | .complete _ => ∃ k t, m.calls k = .stored t

/-- What the calls have to do with the state of the entity. -/
structure Inv (m : Demanded) : Prop where
  running : ∀ k t, m.calls k = .binding t → m.binding.completion = .inProgress t
  owner : ∀ t, m.binding.completion = .inProgress t → ∃ k, m.calls k = .binding t
  /-- At most one call runs the binder. -/
  alone : ∀ k k' t t', m.calls k = .binding t → m.calls k' = .binding t' → k = k'
  kept : ∀ k t, m.calls k = .stored t ∨ m.calls k = .returned t →
    ∃ d, m.binding.completion = .complete d
  awaited : ∀ k t, m.calls k = .asleep t → m.Awaited

theorem inv_initial {b : Binding} (h : b = .fresh ∨ ∃ d, b = .completed d) : Inv (.initial b) where
  running k t h := by cases h
  owner t ht := by
    rcases h with rfl | ⟨d, rfl⟩
    · cases ht
    · cases ht
  alone k k' t t' h := by cases h
  kept k t h := by rcases h with h | h <;> cases h
  awaited k t h := by cases h

section

variable {m m' : Demanded} {e : Event} {past : List Event} {j k : Nat} {ph : Phase} {t : Thread}

/-- The phase is one that the state of the entity does not depend on. -/
def Phase.idle : Phase → Bool
  | .binding _ => false
  | .stored _ => false
  | .reset _ => false
  | _ => true

theorem setCall_idle (hold : (m.calls k).idle = true) (hnew : ph.idle = true) {ph' : Phase}
    (h : ph'.idle = false) : (m.setCall k ph).calls j = ph' ↔ m.calls j = ph' := by
  by_cases hj : j = k
  · subst hj
    rw [setCall_self]
    constructor
    · rintro rfl
      rw [hnew] at h
      cases h
    · rintro rfl
      rw [hold] at h
      cases h
  · rw [setCall_ne hj]

/-- A call moves between phases that the state of the entity does not depend on. -/
theorem Inv.move (hi : Inv m) (hold : (m.calls k).idle = true) (hnew : ph.idle = true)
    (hreturned : ∀ t, ph = .returned t → ∃ d, m.binding.completion = .complete d)
    (hasleep : ∀ t, ph = .asleep t → ∃ owner, m.binding.completion = .inProgress owner) :
    Inv (m.setCall k ph) where
  running j t h := hi.running j t ((setCall_idle hold hnew rfl).mp h)
  owner t h := by
    obtain ⟨j, hj⟩ := hi.owner t h
    exact ⟨j, (setCall_idle hold hnew rfl).mpr hj⟩
  alone j j' t t' h h' :=
    hi.alone j j' t t' ((setCall_idle hold hnew rfl).mp h) ((setCall_idle hold hnew rfl).mp h')
  kept j t h := by
    by_cases hj : j = k
    · subst hj
      rw [setCall_self] at h
      rcases h with rfl | rfl
      · cases hnew
      · exact hreturned t rfl
    · rw [setCall_ne hj] at h
      exact hi.kept j t h
  awaited j t h := by
    have hawaited : m.Awaited := by
      by_cases hj : j = k
      · subst hj
        rw [setCall_self] at h
        obtain ⟨owner, ho⟩ := hasleep t h
        simp [Demanded.Awaited, ho]
      · rw [setCall_ne hj] at h
        exact hi.awaited j t h
    unfold Demanded.Awaited at hawaited ⊢
    rw [setCall_binding]
    cases hc : m.binding.completion with
    | notStarted =>
      rw [hc] at hawaited
      obtain ⟨i, t', hr⟩ := hawaited
      exact ⟨i, t', (setCall_idle hold hnew rfl).mpr hr⟩
    | inProgress owner => trivial
    | complete d =>
      rw [hc] at hawaited
      obtain ⟨i, t', hr⟩ := hawaited
      exact ⟨i, t', (setCall_idle hold hnew rfl).mpr hr⟩

/-- While no run is active, no call is binding. -/
theorem Inv.not_binding (hi : Inv m) (h : m.binding.completion = .notStarted) :
    m.calls j ≠ .binding t := fun hj => by
  have := hi.running j t hj
  rw [h] at this
  cases this

/-- While the entity is not complete, nobody has found it so. -/
theorem Inv.not_kept (hi : Inv m) (h : ∀ d, m.binding.completion ≠ .complete d) :
    ¬ (m.calls j = .stored t ∨ m.calls j = .returned t) := fun hj => by
  obtain ⟨d, hd⟩ := hi.kept j t hj
  exact h d hd

/-- A run of the binder begins. -/
theorem Inv.start (hi : Inv m) (h : m.binding.completion = .notStarted) :
    Inv (Demanded.setCall { m with binding := m.binding.start t } k (.binding t)) where
  running j t' hj := by
    by_cases hk : j = k
    · subst hk
      rw [setCall_self] at hj
      cases hj
      rfl
    · rw [setCall_ne hk] at hj
      exact absurd hj (hi.not_binding h)
  owner t' ht := by
    cases ht
    exact ⟨k, setCall_self⟩
  alone j j' t₁ t₂ hj hj' := by
    have honly : ∀ {i t'}, (Demanded.setCall { m with binding := m.binding.start t } k
        (.binding t)).calls i = .binding t' → i = k := fun {i t'} hi' => by
      by_cases hk : i = k
      · exact hk
      · rw [setCall_ne hk] at hi'
        exact absurd hi' (hi.not_binding h)
    rw [honly hj, honly hj']
  kept j t' hj := by
    by_cases hk : j = k
    · subst hk
      rw [setCall_self] at hj
      rcases hj with hj | hj <;> cases hj
    · rw [setCall_ne hk] at hj
      exact absurd hj (hi.not_kept (by simp [h]))
  awaited j t' _ := trivial

/-- When the active run ends, no run is active. -/
theorem Inv.ended (hi : Inv m) (hk : m.calls k = .binding t) (hph : ∀ t, ph ≠ .binding t)
    {b : Binding} {t' : Thread} : (Demanded.setCall { m with binding := b } k ph).calls j ≠
      .binding t' := by
  by_cases hj : j = k
  · subst hj
    rw [setCall_self]
    exact hph t'
  · rw [setCall_ne hj]
    exact fun h => hj (hi.alone j k t' t h hk)

/-- The run that is active returns. -/
theorem Inv.finish (hi : Inv m) (hk : m.calls k = .binding t) (d : Attributes) :
    Inv (Demanded.setCall { m with binding := m.binding.finish d } k (.stored t)) where
  running j t' h := absurd h (hi.ended hk (by simp))
  owner t' h := by cases h
  alone j j' t₁ t₂ h _ := absurd h (hi.ended hk (by simp))
  kept j t' _ := ⟨d, rfl⟩
  awaited j t' _ := ⟨k, t, setCall_self⟩

/-- The run that is active fails. -/
theorem Inv.abandon (hi : Inv m) (hk : m.calls k = .binding t) :
    Inv (Demanded.setCall { m with binding := m.binding.abandon } k (.reset t)) where
  running j t' h := absurd h (hi.ended hk (by simp))
  owner t' h := by cases h
  alone j j' t₁ t₂ h _ := absurd h (hi.ended hk (by simp))
  kept j t' h := by
    by_cases hj : j = k
    · subst hj
      rw [setCall_self] at h
      rcases h with h | h <;> cases h
    · rw [setCall_ne hj] at h
      have hbusy : m.binding.completion = .inProgress t := hi.running k t hk
      exact absurd h (hi.not_kept (by simp [hbusy]))
  awaited j t' _ := ⟨k, t, setCall_self⟩

theorem binding_of_notify (hidle : ph.idle = true)
    (h : (m.wakeAll.setCall k ph).calls j = .binding t) : m.calls j = .binding t := by
  by_cases hj : j = k
  · subst hj
    rw [setCall_self] at h
    rw [h] at hidle
    cases hidle
  · rwa [setCall_ne hj, wakeAll_eq_iff (by simp) (by simp)] at h

/-- A call whose run has ended wakes those who wait, and ends. -/
theorem Inv.notify (hi : Inv m) (hk : ∀ t, m.calls k ≠ .binding t) (hidle : ph.idle = true)
    (hasleep : ∀ t, ph ≠ .asleep t)
    (hreturned : ∀ t, ph = .returned t → ∃ d, m.binding.completion = .complete d) :
    Inv (m.wakeAll.setCall k ph) where
  running j t h := hi.running j t (binding_of_notify hidle h)
  owner t h := by
    obtain ⟨j, hj⟩ := hi.owner t h
    have hne : j ≠ k := by
      rintro rfl
      exact hk t hj
    exact ⟨j, by rwa [setCall_ne hne, wakeAll_eq_iff (by simp) (by simp)]⟩
  alone j j' t t' h h' :=
    hi.alone j j' t t' (binding_of_notify hidle h) (binding_of_notify hidle h')
  kept j t h := by
    by_cases hj : j = k
    · subst hj
      rw [setCall_self] at h
      rcases h with rfl | rfl
      · cases hidle
      · exact hreturned t rfl
    · rw [setCall_ne hj, wakeAll_eq_iff (by simp) (by simp),
        wakeAll_eq_iff (by simp) (by simp)] at h
      exact hi.kept j t h
  awaited j t h := by
    by_cases hj : j = k
    · subst hj
      rw [setCall_self] at h
      exact absurd h (hasleep t)
    · rw [setCall_ne hj] at h
      exact absurd h wakeAll_ne_asleep

theorem inv_step (hi : Inv m) (hs : Step m e m') : Inv m' := by
  cases hs with
  | enter h => exact hi.move (by rw [h]; rfl) rfl (by simp) (by simp)
  | done h hd =>
    exact hi.move (by rw [h]; rfl) rfl (fun _ _ => Binding.demand_done_iff.mp hd) (by simp)
  | reentrant h hd => exact hi.move (by rw [h]; rfl) rfl (by simp) (by simp)
  | wait h hd =>
    obtain ⟨owner, -, ho⟩ := Binding.demand_wait_iff.mp hd
    exact hi.move (by rw [h]; rfl) rfl (by simp) fun _ _ => ⟨owner, ho⟩
  | start h hd => exact hi.start (Binding.demand_start_iff.mp hd)
  | finish h => exact hi.finish h _
  | abandon h => exact hi.abandon h
  | notifyStored h =>
    exact hi.notify (by simp [h]) rfl (by simp) fun _ _ => hi.kept _ _ (.inl h)
  | notifyReset h => exact hi.notify (by simp [h]) rfl (by simp) (by simp)
  | wake h => exact hi.move (by rw [h]; rfl) rfl (by simp) (by simp)

theorem inv_run {b : Binding} (hb : b = .fresh ∨ ∃ d, b = .completed d)
    (h : Run (.initial b) past m) : Inv m := by
  induction h with
  | refl => exact inv_initial hb
  | step _ hs ih => exact inv_step ih hs

end

/-! ### The account of runs -/

/-- What the state says of the runs of the binder so far. -/
structure Ledger (b : Binding) (past : List Event) (m : Demanded) : Prop where
  starts : m.binding.starts = started past
  idle : m.binding.completion = .notStarted →
    b = .fresh ∧ results past = [] ∧ started past = failures past
  busy : ∀ t, m.binding.completion = .inProgress t →
    b = .fresh ∧ results past = [] ∧ started past = failures past + 1
  done : ∀ d, m.binding.completion = .complete d →
    (b = .fresh ∧ results past = [d] ∧ started past = failures past + 1) ∨
      (b = .completed d ∧ results past = [] ∧ started past = 0)

theorem ledger_initial {b : Binding} (h : b = .fresh ∨ ∃ d, b = .completed d) :
    Ledger b [] (.initial b) := by
  rcases h with rfl | ⟨d, rfl⟩
  · refine ⟨rfl, fun _ => ⟨rfl, rfl, rfl⟩, fun t h => ?_, fun d h => ?_⟩
    · cases h
    · cases h
  · refine ⟨rfl, fun h => ?_, fun t h => ?_, fun d' h => ?_⟩
    · cases h
    · cases h
    · cases h
      exact .inr ⟨rfl, rfl, rfl⟩

/-- A step that starts or ends no run leaves the account as it is. -/
theorem Ledger.quiet {b : Binding} {past : List Event} {m m' : Demanded} {e : Event}
    (h : Ledger b past m) (hb : m'.binding = m.binding) (hs : started [e] = 0)
    (hf : failures [e] = 0) (hr : results [e] = []) : Ledger b (e :: past) m' := by
  have hstarted : started (e :: past) = started past := by
    simpa [started, List.countP_cons] using hs
  have hfailures : failures (e :: past) = failures past := by
    simpa [failures, List.countP_cons] using hf
  have hresults : results (e :: past) = results past :=
    calc results (e :: past) = results [e] ++ results past := List.filterMap_append (l := [e])
      _ = results past := by rw [hr, List.nil_append]
  constructor
  · rw [hb, hstarted]
    exact h.starts
  · rw [hb, hstarted, hfailures, hresults]
    exact h.idle
  · rw [hb, hstarted, hfailures, hresults]
    exact h.busy
  · rw [hb, hstarted, hfailures, hresults]
    exact h.done

theorem ledger_step {b : Binding} {past : List Event} {m m' : Demanded} {e : Event}
    (hi : Inv m) (h : Ledger b past m) (hs : Step m e m') : Ledger b (e :: past) m' := by
  cases hs with
  | enter => exact h.quiet rfl rfl rfl rfl
  | done => exact h.quiet rfl rfl rfl rfl
  | reentrant => exact h.quiet rfl rfl rfl rfl
  | wait => exact h.quiet rfl rfl rfl rfl
  | notifyStored => exact h.quiet rfl rfl rfl rfl
  | notifyReset => exact h.quiet rfl rfl rfl rfl
  | wake => exact h.quiet rfl rfl rfl rfl
  | @start k t hc hd =>
    obtain ⟨hb, hr, hn⟩ := h.idle (Binding.demand_start_iff.mp hd)
    have hstarted : started (.look k .start :: past) = started past + 1 := by simp [started]
    refine ⟨?_, fun h => ?_, fun t' _ => ⟨hb, hr, ?_⟩, fun d h => ?_⟩
    · calc m.binding.starts + 1 = started past + 1 := by rw [h.starts]
        _ = started (.look k .start :: past) := hstarted.symm
    · cases h
    · rw [hstarted, hn]
      simp [failures]
    · cases h
  | @finish k t d hc =>
    obtain ⟨hb, hr, hn⟩ := h.busy t (hi.running k t hc)
    have hresults : results (.finish k d :: past) = d :: results past := by simp [results]
    have hstarted : started (.finish k d :: past) = started past := by simp [started]
    refine ⟨?_, fun h => ?_, fun t' h => ?_, fun d' h => ?_⟩
    · exact h.starts.trans hstarted.symm
    · cases h
    · cases h
    · cases h
      refine .inl ⟨hb, by rw [hresults, hr], ?_⟩
      rw [hstarted, hn]
      simp [failures]
  | @abandon k t hc =>
    obtain ⟨hb, hr, hn⟩ := h.busy t (hi.running k t hc)
    have hfailures : failures (.abandon k :: past) = failures past + 1 := by simp [failures]
    have hstarted : started (.abandon k :: past) = started past := by simp [started]
    refine ⟨?_, fun _ => ⟨hb, hr, ?_⟩, fun t' h => ?_, fun d h => ?_⟩
    · exact h.starts.trans hstarted.symm
    · rw [hstarted, hfailures, hn]
    · cases h
    · cases h

theorem ledger_run {b : Binding} (hb : b = .fresh ∨ ∃ d, b = .completed d) {past : List Event}
    {m : Demanded} (h : Run (.initial b) past m) : Ledger b past m := by
  induction h with
  | refl => exact ledger_initial hb
  | step hr hs ih => exact ledger_step (inv_run hb hr) ih hs

/-! ### What binding comes to -/

/-- What is true of the state that some events lead to from `b`, and of all that may follow. -/
structure Binds (b : Binding) (past : List Event) (m : Demanded) : Prop where
  /-- At most one run of the binder is active. -/
  alone : ∀ k k' t t', m.calls k = .binding t → m.calls k' = .binding t' → k = k'
  /-- A run is active exactly while the entity is in progress on its thread. -/
  active : ∀ t, m.binding.completion = .inProgress t ↔ ∃ k, m.calls k = .binding t
  /-- What is complete stays complete, with the same data. -/
  stays : ∀ d, m.binding.completion = .complete d →
    ∀ future m', Run m future m' → m'.binding.completion = .complete d
  /-- The runs that were started are counted. -/
  starts : m.binding.starts = started past
  /-- The data is what the one run that has returned gave, and all other runs have failed. -/
  result : b = .fresh → ∀ d, m.binding.completion = .complete d →
    results past = [d] ∧ m.binding.starts = failures past + 1
  /-- An entity that was complete from the beginning is as it was. -/
  untouched : ∀ d, b = .completed d → m.binding = .completed d
  /-- A call that has returned leaves the entity complete. -/
  returns : ∀ k t, m.calls k = .returned t → ∃ d, m.binding.completion = .complete d
  /-- Only a call of the thread that runs the binder returns from anything else, and it changes
  nothing. -/
  reenters : ∀ e m', Step m e m' → ∀ k t, m.calls k ≠ .reentered t →
    m'.calls k = .reentered t → m.binding.completion = .inProgress t ∧ m'.binding = m.binding
  /-- A run that fails puts the state back. -/
  fails : ∀ k m', Step m (.abandon k) m' → m'.binding.completion = .notStarted
  /-- Each of those who wait may then be the next to run the binder. -/
  retries : m.binding.completion = .notStarted → ∀ j t, m.calls j = .asleep t →
    ∃ k m' m'', Step m (.notify k) m' ∧ Step m' (.look j .start) m'' ∧
      m''.binding.completion = .inProgress t ∧ m''.calls j = .binding t
  /-- Those who wait will be woken. -/
  wakes : ∀ j t, m.calls j = .asleep t →
    ∃ k t', m.calls k = .binding t' ∨ m.calls k = .stored t' ∨ m.calls k = .reset t'

section

variable {b : Binding} {m m' : Demanded} {e : Event} {past : List Event} {j k : Nat} {t : Thread}

theorem complete_step (hi : Inv m) (hs : Step m e m') {d : Attributes}
    (h : m.binding.completion = .complete d) : m'.binding.completion = .complete d := by
  cases hs with
  | start _ hd => cases (Binding.demand_start_iff.mp hd).symm.trans h
  | finish hc => cases (hi.running _ _ hc).symm.trans h
  | abandon hc => cases (hi.running _ _ hc).symm.trans h
  | enter => exact h
  | done => exact h
  | reentrant => exact h
  | wait => exact h
  | notifyStored => exact h
  | notifyReset => exact h
  | wake => exact h

theorem complete_run (hi : Inv m) (hr : Run m past m') {d : Attributes}
    (h : m.binding.completion = .complete d) : m'.binding.completion = .complete d := by
  have hboth : Inv m' ∧ m'.binding.completion = .complete d := by
    induction hr with
    | refl => exact ⟨hi, h⟩
    | step _ hs ih => exact ⟨inv_step ih.1 hs, complete_step ih.1 hs ih.2⟩
  exact hboth.2

theorem reenters_step (hs : Step m e m') (h : m.calls k ≠ .reentered t)
    (h' : m'.calls k = .reentered t) :
    m.binding.completion = .inProgress t ∧ m'.binding = m.binding := by
  -- the phase of a call whose step this is not is the same, but for waking
  have hother : ∀ {m₁ : Demanded} {i : Nat} {ph : Phase},
      (m₁.calls k = .reentered t ↔ m.calls k = .reentered t) → ph ≠ .reentered t →
        (m₁.setCall i ph).calls k ≠ .reentered t := by
    intro m₁ i ph heq hph
    by_cases hk : k = i
    · subst hk
      rw [setCall_self]
      exact hph
    · rw [setCall_ne hk, Ne, heq]
      exact h
  cases hs with
  | @reentrant i t' hc hd =>
    by_cases hk : k = i
    · subst hk
      rw [setCall_self] at h'
      cases h'
      exact ⟨Binding.demand_reentrant_iff.mp hd, rfl⟩
    · rw [setCall_ne hk] at h'
      exact absurd h' h
  | enter => exact absurd h' (hother Iff.rfl (by simp))
  | done => exact absurd h' (hother Iff.rfl (by simp))
  | wait => exact absurd h' (hother Iff.rfl (by simp))
  | start => exact absurd h' (hother Iff.rfl (by simp))
  | finish => exact absurd h' (hother Iff.rfl (by simp))
  | abandon => exact absurd h' (hother Iff.rfl (by simp))
  | notifyStored => exact absurd h' (hother (wakeAll_eq_iff (by simp) (by simp)) (by simp))
  | notifyReset => exact absurd h' (hother (wakeAll_eq_iff (by simp) (by simp)) (by simp))
  | wake => exact absurd h' (hother Iff.rfl (by simp))

/-- Where nobody runs the binder and somebody waits, the waiting call can be the next owner. -/
theorem Inv.retries (hi : Inv m) (h : m.binding.completion = .notStarted)
    (hj : m.calls j = .asleep t) :
    ∃ k m' m'', Step m (.notify k) m' ∧ Step m' (.look j .start) m'' ∧
      m''.binding.completion = .inProgress t ∧ m''.calls j = .binding t := by
  have hawaited := hi.awaited j t hj
  rw [Demanded.Awaited, h] at hawaited
  obtain ⟨k, t', hk⟩ := hawaited
  have hne : j ≠ k := by
    rintro rfl
    rw [hj] at hk
    cases hk
  have hlook : (m.wakeAll.setCall k (.unwound t')).calls j = .looking t := by
    rw [setCall_ne hne]
    exact wakeAll_of_asleep hj
  exact ⟨k, _, _, .notifyReset hk, .start hlook (Binding.demand_start_iff.mpr h), rfl, setCall_self⟩

theorem Inv.wakes (hi : Inv m) (hj : m.calls j = .asleep t) :
    ∃ k t', m.calls k = .binding t' ∨ m.calls k = .stored t' ∨ m.calls k = .reset t' := by
  have hawaited := hi.awaited j t hj
  unfold Demanded.Awaited at hawaited
  cases hc : m.binding.completion with
  | notStarted =>
    rw [hc] at hawaited
    obtain ⟨k, t', hk⟩ := hawaited
    exact ⟨k, t', .inr (.inr hk)⟩
  | inProgress t' =>
    obtain ⟨k, hk⟩ := hi.owner t' hc
    exact ⟨k, t', .inl hk⟩
  | complete d =>
    rw [hc] at hawaited
    obtain ⟨k, t', hk⟩ := hawaited
    exact ⟨k, t', .inr (.inl hk)⟩

/-- **One binder at a time, under any interleaving.** -/
theorem run_binds (hb : b = .fresh ∨ ∃ d, b = .completed d) (h : Run (.initial b) past m) :
    Binds b past m := by
  have hi := inv_run hb h
  have hl := ledger_run hb h
  exact
    { alone := hi.alone
      active := fun t => ⟨hi.owner t, fun ⟨k, hk⟩ => hi.running k t hk⟩
      stays := fun d hd _ _ hr => complete_run hi hr hd
      starts := hl.starts
      result := fun hfresh d hd => by
        rcases hl.done d hd with ⟨-, hr, hn⟩ | ⟨hc, -, -⟩
        · exact ⟨hr, by rw [hl.starts, hn]⟩
        · rw [hfresh] at hc
          cases hc
      untouched := fun d hd => by
        subst hd
        have hc : m.binding.completion = .complete d :=
          complete_run (inv_initial (.inr ⟨d, rfl⟩)) h rfl
        rcases hl.done d hc with ⟨hf, -, -⟩ | ⟨-, -, hn⟩
        · cases hf
        · have hstarts : m.binding.starts = 0 := hl.starts.trans hn
          calc m.binding = ⟨m.binding.completion, m.binding.starts⟩ := rfl
            _ = .completed d := by rw [hc, hstarts, Binding.completed]
      returns := fun k t hk => hi.kept k t (.inr hk)
      reenters := fun _ _ hs _ _ hk hk' => reenters_step hs hk hk'
      fails := fun k m' hs => by
        cases hs
        rfl
      retries := fun hn _ _ hj => hi.retries hn hj
      wakes := fun _ _ hj => hi.wakes hj }

/-- A call runs the binder, calls again from inside it, and fails; then one that waited runs it. -/
def contended : List Event :=
  [.notify 2, .finish 2 .plain, .look 2 .start, .notify 0, .abandon 0, .look 1 .reentrant,
    .enter 1 1, .look 2 .wait, .enter 2 2, .look 0 .start, .enter 0 1]

/-- Two runs were started, one of which has failed. -/
theorem contended_binds :
    ∃ m, Run (.initial .fresh) contended m ∧ Binds .fresh contended m ∧
      m.binding = ⟨.complete .plain, 2⟩ ∧ m.calls 0 = .unwound 1 ∧ m.calls 1 = .reentered 1 ∧
      m.calls 2 = .returned 2 := by
  have h₁ : Run (.initial .fresh) _ _ := .step .refl (.enter (k := 0) (t := 1) rfl)
  have h₂ := h₁.step (.start (k := 0) rfl rfl)
  have h₃ := h₂.step (.enter (k := 2) (t := 2) rfl)
  have h₄ := h₃.step (.wait (k := 2) rfl rfl)
  have h₅ := h₄.step (.enter (k := 1) (t := 1) rfl)
  have h₆ := h₅.step (.reentrant (k := 1) rfl rfl)
  have h₇ := h₆.step (.abandon (k := 0) rfl)
  have h₈ := h₇.step (.notifyReset (k := 0) rfl)
  have h₉ := h₈.step (.start (k := 2) rfl rfl)
  have h₁₀ := h₉.step (.finish (k := 2) (d := .plain) rfl)
  have h₁₁ := h₁₀.step (.notifyStored (k := 2) rfl)
  exact ⟨_, h₁₁, run_binds (.inl rfl) h₁₁, rfl, rfl, rfl, rfl⟩

end

/-! ### The steps of a session -/

section

open Session

variable {p : Program} {run : Runner} {at_ : Scope} {c : Course} {e k : Nat}
variable {wrapped completed : Bool} {binder : Binder} {calls calls' : Nat → Phase}

theorem started_bindings_self : (c.started e at_.thread).now.bindings e =
    (c.now.bindings e).start at_.thread :=
  World.updateBinding_self c.now e (·.start at_.thread)

/-- Where a session runs a binder, it takes the steps of a call from the look to the end of the
run. -/
theorem force_steps (hbeh : (p.entity e).behaviour = .source wrapped completed binder)
    (hd : (c.now.bindings e).demand at_.thread = .start) (hk : calls k = .looking at_.thread)
    (hk' : calls' k = .binding at_.thread) :
    Step ⟨c.now.bindings e, calls⟩ (.look k .start)
        (Demanded.setCall ⟨((c.demanding e).started e at_.thread).now.bindings e, calls⟩ k
          (.binding at_.thread)) ∧
      match runBinder run at_ e binder ((c.demanding e).started e at_.thread) with
      | .ok _ c₂ =>
        Step ⟨c₂.now.bindings e, calls'⟩ (.finish k (p.entity e).attributes)
          (Demanded.setCall ⟨((force p run at_ e).course c).now.bindings e, calls'⟩ k
            (.stored at_.thread))
      | .error _ c₂ =>
        Step ⟨c₂.now.bindings e, calls'⟩ (.abandon k)
          (Demanded.setCall ⟨((force p run at_ e).course c).now.bindings e, calls'⟩ k
            (.reset at_.thread)) := by
  refine ⟨?_, ?_⟩
  · rw [started_bindings_self]
    exact .start hk hd
  · have hforce : force p run at_ e c = _ := force_source hbeh
    rw [hd] at hforce
    cases hr : runBinder run at_ e binder ((c.demanding e).started e at_.thread) with
    | ok u c₂ =>
      rw [Act.course_of_ok (hforce.trans (complete_of_ok hr))]
      simp only [Course.goOn, World.updateBinding_self]
      exact .finish hk'
    | error x c₂ =>
      rw [Act.course_of_error (hforce.trans (complete_of_error hr))]
      simp only [Course.goOn, World.updateBinding_self]
      exact .abandon hk'

end

end Contention
end Deferral
