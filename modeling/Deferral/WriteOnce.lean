/-
# Slots that are written once

An object that several parties may hold has a key, which says whether two of
them hold the same one. A slot keeps the first object that is offered to
it; each object offered later is dropped and counted, and whoever offers it
gets the one that is kept.

Key definitions: `Shared`, `WriteOnce.offer`, `WriteOnce.clear`, `Numbering`.
Key lemmas: `WriteOnce.offer_won_iff`, `WriteOnce.stored_offer`, `WriteOnce.stored_offer_of_stored`,
`WriteOnce.dropped_offer`.
-/

namespace Deferral

/-- An object with an identity: two are the same object when their keys agree. -/
structure Shared (α : Type) where
  key : Nat
  value : α
deriving DecidableEq

/-- A cell written at most once, and the number of objects that came too late. -/
structure WriteOnce (α : Type) where
  stored : Option (Shared α)
  dropped : Nat
deriving DecidableEq

namespace WriteOnce

variable {α : Type}

/-- Nothing stored and nothing dropped. -/
def empty : WriteOnce α := ⟨none, 0⟩

/-- An object is stored. -/
def isFilled (s : WriteOnce α) : Bool := s.stored.isSome

/-- Stores the object unless one is stored, and answers the stored object and whether it is this
one. -/
def offer (s : WriteOnce α) (o : Shared α) : (Shared α × Bool) × WriteOnce α :=
  match s.stored with
  | none => ((o, true), { s with stored := some o })
  | some held => ((held, false), { s with dropped := s.dropped + 1 })

/-- Empties the slot and answers what was stored; the count of dropped objects stays. -/
def clear (s : WriteOnce α) : Option (Shared α) × WriteOnce α :=
  (s.stored, { s with stored := none })

/-- An offer wins exactly when nothing is stored yet. -/
theorem offer_won_iff (s : WriteOnce α) (o : Shared α) :
    (s.offer o).1.2 = true ↔ s.stored = none := by
  unfold offer
  split <;> simp_all

/-- After an offer the slot holds the object that was answered. -/
theorem stored_offer (s : WriteOnce α) (o : Shared α) :
    (s.offer o).2.stored = some (s.offer o).1.1 := by
  unfold offer
  split <;> simp_all

/-- An offer to an empty slot is kept. -/
theorem stored_offer_of_empty {s : WriteOnce α} (h : s.stored = none) (o : Shared α) :
    (s.offer o).2.stored = some o := by
  simp [offer, h]

/-- What is stored stays, whatever is offered. -/
theorem stored_offer_of_stored {s : WriteOnce α} {held : Shared α} (h : s.stored = some held)
    (o : Shared α) : (s.offer o).2.stored = some held := by
  simp [offer, h]

/-- An offer is answered by what was stored before, or else by itself. -/
theorem offer_answer (s : WriteOnce α) (o : Shared α) : (s.offer o).1.1 = s.stored.getD o := by
  unfold offer
  split <;> simp_all

/-- An object that is offered is kept or dropped. -/
theorem dropped_offer (s : WriteOnce α) (o : Shared α) :
    (s.offer o).2.dropped + (s.offer o).1.2.toNat = s.dropped + 1 := by
  unfold offer
  split <;> simp

end WriteOnce

/-! ### Numbers for objects that are shown -/

/-- The keys shown so far; the number of an object is the position of its key. -/
structure Numbering where
  shown : List Nat

namespace Numbering

/-- Nothing has been shown. -/
def empty : Numbering := ⟨[]⟩

/-- The number of the object with this key, a new one if it was never shown. -/
def number (n : Numbering) (key : Nat) : Nat × Numbering :=
  match n.shown.idxOf? key with
  | some i => (i, n)
  | none => (n.shown.length, ⟨n.shown ++ [key]⟩)

end Numbering
end Deferral
