/-
# Indexes of unique keys

An index over entries keeps the value of each key that occurs exactly once
and has a value. While it is built, a key that is seen again is marked as
taken, and an absent value takes its key in the same way.

Key definitions: `Emission.claim`, `Emission.UniqueIndex.ofEntries`.
-/

namespace Deferral
namespace Emission

variable {κ α : Type}

/-- Each key with its value, in some order. -/
structure UniqueIndex (κ α : Type) where
  entries : List (κ × α)
deriving DecidableEq

section

variable [DecidableEq κ]

/-- Adds an entry to a table: a new key with its value, a known key with none. -/
def claim (key : κ) (value : Option α) : List (κ × Option α) → List (κ × Option α)
  | [] => [(key, value)]
  | (k, v) :: rest => if k = key then (k, none) :: rest else (k, v) :: claim key value rest

/-- The table of a list of entries. -/
def claimAll (entries : List (κ × Option α)) : List (κ × Option α) :=
  entries.foldl (fun table e => claim e.1 e.2 table) []

end

namespace UniqueIndex

/-- The index of the keys that occur once, with a value. -/
def ofEntries [DecidableEq κ] (entries : List (κ × Option α)) : UniqueIndex κ α :=
  ⟨(claimAll entries).filterMap fun e => e.2.map fun v => (e.1, v)⟩

/-- The number of keys. -/
def size (ix : UniqueIndex κ α) : Nat := ix.entries.length

/-- The value of a key. -/
def get? [DecidableEq κ] (ix : UniqueIndex κ α) (key : κ) : Option α :=
  (ix.entries.find? fun e => e.1 = key).map (·.2)

/-- The entries by key, in the order of code points. -/
def sorted (ix : UniqueIndex String α) : List (String × α) :=
  ix.entries.mergeSort fun a b => (compare a.1 b.1).isLE

end UniqueIndex
end Emission
end Deferral
