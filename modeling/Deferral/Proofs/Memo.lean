/-
# Calls that resolve diagnostics, step by step

A call that resolves a diagnostic reads its slot, computes unless a result is there, and offers what
it has computed to the slot. Other calls may come between: on other threads, or nested in the
computation. Any number of calls of any number of diagnostics take their steps in any order here,
each computation ends as it likes, and objects are made elsewhere in between.

Key definitions: `Memo.Phase`, `Memo.Memory`, `Memo.Step`, `Memo.Run`.
Key theorems: `Memo.stored_run`, `Memo.calls_of_ended`, `Memo.readsOnly_run`.
-/
import Deferral.Session.World

namespace Deferral
namespace Memo

open Session

/-! ### Calls and their steps -/

/-- How a computation ends. -/
inductive Outcome where
  | undecided
  | failed
  | found (f : Finding)
deriving DecidableEq

/-- How far a call has come. -/
inductive Phase where
  | outside
  | entered
  | computing
  /-- It has computed a result, and made an object for it. -/
  | offering (o : Shared Finding)
  /-- It has answered what it read. -/
  | found (o : Shared Finding)
  /-- It has answered what the slot kept, which is its own object if it won. -/
  | published (o : Shared Finding) (won : Bool)
  | undecided
  | failed
deriving DecidableEq

/-- The answer of a call that has ended, unless it failed. -/
def Phase.answer? : Phase → Option (Option (Shared Finding))
  | .found o => some (some o)
  | .published o _ => some (some o)
  | .undecided => some none
  | _ => none

/-- The answer, where what is undecided counts as nothing to report. -/
def Phase.answerOrVoid? (ph : Phase) : Option (Shared Finding) := ph.answer?.map (·.getD voidObject)

/-- The slot of each diagnostic, the next free key, and how far each of its calls has come. -/
structure Memory where
  slots : Nat → WriteOnce Finding
  nextKey : Nat
  calls : Nat → Nat → Phase

namespace Memory

/-- Nothing is memoized, and nothing has been called. -/
def initial : Memory := ⟨fun _ => .empty, 1, fun _ _ => .outside⟩

/-- Call `k` of diagnostic `d` gets to the phase `ph`. -/
def setCall (m : Memory) (d k : Nat) (ph : Phase) : Memory :=
  { m with calls := fun d' k' => if d' = d ∧ k' = k then ph else m.calls d' k' }

/-- An object is offered to the slot of diagnostic `d`. -/
def offer (m : Memory) (d : Nat) (o : Shared Finding) : Memory :=
  { m with slots := fun d' => if d' = d then ((m.slots d).offer o).2 else m.slots d' }

/-- A call offers its object, and has the answer. -/
def publish (m : Memory) (d k : Nat) (o : Shared Finding) : Memory :=
  (m.offer d o).setCall d k
    (.published ((m.slots d).offer o).1.1 ((m.slots d).offer o).1.2)

/-- An object has been made for a finding. -/
def made (m : Memory) (f : Finding) : Memory := { m with nextKey := (objectAt m.nextKey f).2 }

end Memory

/-- What happens, to which call of which diagnostic. -/
inductive Event where
  | enter (d k : Nat)
  | look (d k : Nat)
  | finish (d k : Nat) (outcome : Outcome)
  | publish (d k : Nat)
  /-- An object is made for something else. -/
  | elsewhere (f : Finding)
deriving DecidableEq

/-- One step of one call, which nothing comes between. -/
inductive Step (m : Memory) : Event → Memory → Prop where
  | enter {d k : Nat} (h : m.calls d k = .outside) : Step m (.enter d k) (m.setCall d k .entered)
  | read {d k : Nat} {o : Shared Finding} (h : m.calls d k = .entered)
      (hs : (m.slots d).stored = some o) : Step m (.look d k) (m.setCall d k (.found o))
  | compute {d k : Nat} (h : m.calls d k = .entered) (hs : (m.slots d).stored = none) :
      Step m (.look d k) (m.setCall d k .computing)
  | undecided {d k : Nat} (h : m.calls d k = .computing) :
      Step m (.finish d k .undecided) (m.setCall d k .undecided)
  | failed {d k : Nat} (h : m.calls d k = .computing) :
      Step m (.finish d k .failed) (m.setCall d k .failed)
  | result {d k : Nat} {f : Finding} (h : m.calls d k = .computing) :
      Step m (.finish d k (.found f))
        ((m.made f).setCall d k (.offering (objectAt m.nextKey f).1))
  | publish {d k : Nat} {o : Shared Finding} (h : m.calls d k = .offering o) :
      Step m (.publish d k) (m.publish d k o)
  | elsewhere {f : Finding} : Step m (.elsewhere f) (m.made f)

/-- From one memory to another, by events of which the latest comes first. -/
inductive Run (m : Memory) : List Event → Memory → Prop where
  | refl : Run m [] m
  | step {past : List Event} {m' m'' : Memory} {e : Event} (h : Run m past m')
      (hs : Step m' e m'') : Run m (e :: past) m''

/-- The number of results that were offered to the slot of diagnostic `d`. -/
def offers (d : Nat) (past : List Event) : Nat :=
  past.countP fun
    | .publish d' _ => d' == d
    | _ => false

/-! ### What the steps change -/

section

variable {m m' : Memory} {d k d' k' : Nat} {ph ph' : Phase} {o : Shared Finding} {f : Finding}

@[simp] theorem setCall_slots : (m.setCall d k ph).slots = m.slots := rfl

@[simp] theorem setCall_self : (m.setCall d k ph).calls d k = ph := by simp [Memory.setCall]

theorem setCall_ne (h : ¬ (d' = d ∧ k' = k)) : (m.setCall d k ph).calls d' k' = m.calls d' k' := by
  simp [Memory.setCall, h]

/-- A phase that a call neither leaves nor gets to. -/
theorem setCall_eq_iff (hold : m.calls d k ≠ ph') (hnew : ph ≠ ph') :
    (m.setCall d k ph).calls d' k' = ph' ↔ m.calls d' k' = ph' := by
  by_cases hc : d' = d ∧ k' = k
  · obtain ⟨rfl, rfl⟩ := hc
    rw [setCall_self]
    exact ⟨fun h => absurd h hnew, fun h => absurd h hold⟩
  · rw [setCall_ne hc]

/-- What holds of the phase that a call gets to, and of the phases there were, holds after it. -/
theorem setCall_of {P : Phase → Prop} (h : d' = d → k' = k → P ph) (h' : P (m.calls d' k')) :
    P ((m.setCall d k ph).calls d' k') := by
  by_cases hc : d' = d ∧ k' = k
  · obtain ⟨rfl, rfl⟩ := hc
    rw [setCall_self]
    exact h rfl rfl
  · rwa [setCall_ne hc]

theorem publish_self : (m.publish d k o).calls d k =
    .published ((m.slots d).offer o).1.1 ((m.slots d).offer o).1.2 := setCall_self

theorem publish_ne (h : ¬ (d' = d ∧ k' = k)) : (m.publish d k o).calls d' k' = m.calls d' k' :=
  setCall_ne h

theorem publish_slots_self : (m.publish d k o).slots d = ((m.slots d).offer o).2 := by
  simp [Memory.publish, Memory.offer]

theorem publish_slots_ne (h : d' ≠ d) : (m.publish d k o).slots d' = m.slots d' := by
  simp [Memory.publish, Memory.offer, h]

end

/-! ### What stays -/

section

variable {m m' : Memory} {e : Event} {past : List Event} {d k : Nat} {o : Shared Finding}

/-- Nothing but an offer changes a slot. -/
theorem slots_step (hs : Step m e m') (he : ∀ d k, e ≠ .publish d k) : m'.slots = m.slots := by
  cases hs with
  | publish => exact absurd rfl (he _ _)
  | enter => rfl
  | read => rfl
  | compute => rfl
  | undecided => rfl
  | failed => rfl
  | result => rfl
  | elsewhere => rfl

/-- A memoized result stays. -/
theorem stored_step (hs : Step m e m') (h : (m.slots d).stored = some o) :
    (m'.slots d).stored = some o := by
  by_cases he : ∃ d' k', e = .publish d' k'
  · obtain ⟨d', k', rfl⟩ := he
    cases hs with
    | @publish _ _ o' _ =>
      by_cases hd : d = d'
      · subst hd
        rw [publish_slots_self]
        exact WriteOnce.stored_offer_of_stored h o'
      · rwa [publish_slots_ne hd]
  · rwa [slots_step hs fun d' k' heq => he ⟨d', k', heq⟩]

theorem stored_run (hr : Run m past m') (h : (m.slots d).stored = some o) :
    (m'.slots d).stored = some o := by
  induction hr with
  | refl => exact h
  | step _ hs ih => exact stored_step hs ih

/-- The call takes no more steps. -/
def Phase.ended : Phase → Bool
  | .found _ => true
  | .published _ _ => true
  | .undecided => true
  | .failed => true
  | _ => false

theorem calls_of_ended (hs : Step m e m') (h : (m.calls d k).ended = true) :
    m'.calls d k = m.calls d k := by
  have hne : ∀ {d' k' : Nat} {ph : Phase}, m.calls d' k' = ph → ph.ended = false →
      ¬ (d = d' ∧ k = k') := by
    rintro d' k' ph hph hend ⟨rfl, rfl⟩
    rw [hph, hend] at h
    cases h
  cases hs with
  | enter hc => exact setCall_ne (hne hc rfl)
  | read hc => exact setCall_ne (hne hc rfl)
  | compute hc => exact setCall_ne (hne hc rfl)
  | undecided hc => exact setCall_ne (hne hc rfl)
  | failed hc => exact setCall_ne (hne hc rfl)
  | result hc => exact setCall_ne (hne hc rfl)
  | publish hc => exact publish_ne (hne hc rfl)
  | elsewhere => rfl

theorem ended_run (hr : Run m past m') (h : (m.calls d k).ended = true) :
    m'.calls d k = m.calls d k := by
  induction hr with
  | refl => rfl
  | step _ hs ih => rw [calls_of_ended hs (by rw [ih]; exact h), ih]

/-- The call has not looked, or it has read the object. -/
def Phase.readsOnly (o : Shared Finding) (ph : Phase) : Prop :=
  ph = .outside ∨ ph = .entered ∨ ph = .found o

/-- Where a result is memoized, a call that has not looked yet never computes. -/
theorem readsOnly_step (hs : Step m e m') (h : (m.slots d).stored = some o)
    (hc : (m.calls d k).readsOnly o) : (m'.calls d k).readsOnly o := by
  have hne : ∀ {d' k' : Nat} {ph : Phase}, m.calls d' k' = ph → ¬ ph.readsOnly o →
      ¬ (d = d' ∧ k = k') := by
    rintro d' k' ph rfl hph ⟨rfl, rfl⟩
    exact hph hc
  cases hs with
  | enter => exact setCall_of (fun _ _ => .inr (.inl rfl)) hc
  | @read d' k' o' _ hst =>
    refine setCall_of (fun hd _ => .inr (.inr ?_)) hc
    rw [hd, hst] at h
    rw [Option.some.inj h]
  | @compute d' k' _ hst =>
    refine setCall_of (fun hd _ => ?_) hc
    rw [hd, hst] at h
    cases h
  | undecided hp =>
    rw [setCall_ne (hne hp (by simp [Phase.readsOnly]))]
    exact hc
  | failed hp =>
    rw [setCall_ne (hne hp (by simp [Phase.readsOnly]))]
    exact hc
  | result hp =>
    rw [setCall_ne (hne hp (by simp [Phase.readsOnly]))]
    exact hc
  | publish hp =>
    rw [publish_ne (hne hp (by simp [Phase.readsOnly]))]
    exact hc
  | elsewhere => exact hc

theorem readsOnly_run (hr : Run m past m') (h : (m.slots d).stored = some o)
    (hc : (m.calls d k).readsOnly o) : (m'.calls d k).readsOnly o := by
  induction hr with
  | refl => exact hc
  | step hr hs ih => exact readsOnly_step hs (stored_run hr h) ih

end

end Memo
end Deferral
