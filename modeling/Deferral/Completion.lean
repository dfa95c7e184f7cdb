/-
# Completing the attributes of an entity

The attributes of an entity are completed by its binder, on the first thread
that demands them. While the binder runs, other threads wait, and a demand of
the binding thread itself returns at once and changes nothing. A binder that
fails puts the entity back to not started, so that a later demand tries again.

Each function here is one step that no other thread can come between:
`Binding.demand` examines the state, `start` takes ownership, `finish` stores
the attributes and `abandon` undoes a start.

Key definitions: `Completion`, `Binding`, `Binding.demand`.
Key lemmas: `Binding.demand_done_iff`, `Binding.demand_reentrant_iff`, `Binding.demand_wait_iff`,
`Binding.demand_start_iff`.
-/
import Deferral.Attributes

namespace Deferral

/-- Threads are numbered. -/
abbrev Thread := Nat

/-- How far the attributes of an entity are known. -/
inductive Completion where
  | notStarted
  | inProgress (owner : Thread)
  | complete (data : Attributes)
deriving DecidableEq

/-- The attributes, when they are complete. -/
def Completion.data? : Completion → Option Attributes
  | .complete data => some data
  | _ => none

/-- A completion state, and how many runs of the binder have been started. -/
structure Binding where
  completion : Completion
  starts : Nat
deriving DecidableEq

/-- What a thread that demands the attributes has to do. -/
inductive Demand where
  /-- Return: they are complete. -/
  | done
  /-- Return: this very thread is completing them. -/
  | reentrant
  /-- Wait for the thread that is completing them, then look again. -/
  | wait
  /-- Run the binder. -/
  | start
deriving DecidableEq

namespace Binding

/-- Not started, to be completed by a binder. -/
def fresh : Binding := ⟨.notStarted, 0⟩

/-- Complete from the beginning; no binder ever runs. -/
def completed (data : Attributes) : Binding := ⟨.complete data, 0⟩

/-- The attributes are complete. -/
def isFinished (b : Binding) : Bool := b.completion.data?.isSome

/-- The thread `me` is completing the attributes. -/
def isInProgressOn (b : Binding) (me : Thread) : Bool := b.completion == .inProgress me

/-- What the thread `me` has to do to have the attributes completed. -/
def demand (b : Binding) (me : Thread) : Demand :=
  match b.completion with
  | .complete _ => .done
  | .inProgress owner => if owner = me then .reentrant else .wait
  | .notStarted => .start

/-- The thread `me` starts a run of the binder. -/
def start (b : Binding) (me : Thread) : Binding := ⟨.inProgress me, b.starts + 1⟩

/-- The run of the binder has returned `data`. -/
def finish (b : Binding) (data : Attributes) : Binding := { b with completion := .complete data }

/-- The run of the binder has failed. -/
def abandon (b : Binding) : Binding := { b with completion := .notStarted }

/-! ### Demands -/

variable {b : Binding} {me : Thread}

theorem demand_done_iff : b.demand me = .done ↔ ∃ d, b.completion = .complete d := by
  unfold demand
  split
  · simp_all
  · split <;> simp_all
  · simp_all

theorem demand_reentrant_iff : b.demand me = .reentrant ↔ b.completion = .inProgress me := by
  unfold demand
  split
  · simp_all
  · split <;> simp_all
  · simp_all

theorem demand_wait_iff :
    b.demand me = .wait ↔ ∃ owner, owner ≠ me ∧ b.completion = .inProgress owner := by
  unfold demand
  split
  · simp_all
  · split <;> simp_all
  · simp_all

theorem demand_start_iff : b.demand me = .start ↔ b.completion = .notStarted := by
  unfold demand
  split
  · simp_all
  · split <;> simp_all
  · simp_all

end Binding
end Deferral
