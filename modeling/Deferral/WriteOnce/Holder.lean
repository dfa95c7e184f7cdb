/-
# Filling a slot step by step

A holder owns a slot and keeps the objects it has made, so that it can offer
the same object again.

Key definitions: `WriteOnce.Step`, `WriteOnce.Holder`, `WriteOnce.Holder.perform`.
-/
import Deferral.WriteOnce
import Deferral.Text.Quoted

namespace Deferral
namespace WriteOnce

variable {α : Type}

/-- The text of a slot, given the text of a value. -/
def describe (value : α → String) (s : WriteOnce α) : String :=
  Text.record "OnceSlot"
    [("value", Text.optional (s.stored.map fun o => value o.value)),
      ("discarded", toString s.dropped)]

/-- What is done with a slot. -/
inductive Step (α : Type) where
  | offer (value : α)
  /-- Offers the object that was kept under a number, or a new one if the number is free. -/
  | offerHeld (number : Nat) (value : α)
  | get
  | clear
  | describe
  /-- Several threads offer objects of their own at once. -/
  | race (threads : Nat) (value : α)

/-- What a step answers. -/
inductive Answer (α : Type) where
  | offered (stored : Shared α) (won : Bool)
  | offeredHeld (stored : Shared α) (won mine : Bool)
  | object (o : Option (Shared α))
  | text (s : String)
  | race (winners : Nat) (value : Option α)

/-- A slot, the objects kept so far, and the key of the next object. -/
structure Holder (α : Type) where
  slot : WriteOnce α
  held : List (Shared α)
  nextKey : Nat

namespace Holder

/-- An empty slot and no objects. -/
def empty : Holder α := ⟨.empty, [], 0⟩

/-- Offers a new object. -/
def offerNew (h : Holder α) (value : α) : (Shared α × Bool) × Holder α :=
  let (result, slot) := h.slot.offer ⟨h.nextKey, value⟩
  (result, { h with slot, nextKey := h.nextKey + 1 })

/-- Offers `n` new objects, and counts those that win. -/
def offerMany (value : α) : Nat → Holder α → Nat × Holder α
  | 0, h => (0, h)
  | n + 1, h =>
    let ((_, won), h) := h.offerNew value
    let (winners, h) := offerMany value n h
    (winners + won.toNat, h)

/-- Performs a step. -/
def perform (value : α → String) (h : Holder α) : Step α → Answer α × Holder α
  | .offer v =>
    let ((stored, won), h) := h.offerNew v
    (.offered stored won, h)
  | .offerHeld number v =>
    let (o, h) :=
      match h.held[number]? with
      | some o => (o, h)
      | none =>
        let o : Shared α := ⟨h.nextKey, v⟩
        (o, { h with held := h.held ++ [o], nextKey := h.nextKey + 1 })
    let ((stored, won), slot) := h.slot.offer o
    (.offeredHeld stored won (stored.key == o.key), { h with slot })
  | .get => (.object h.slot.stored, h)
  | .clear =>
    let (o, slot) := h.slot.clear
    (.object o, { h with slot })
  | .describe => (.text (h.slot.describe value), h)
  | .race threads v =>
    let (winners, h) := offerMany v threads h
    (.race winners (h.slot.stored.map (·.value)), h)

end Holder
end WriteOnce
end Deferral
