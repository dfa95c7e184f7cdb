/-
# What an index of unique keys answers

While an index is built, its table has each key once. A key stands there with its value as long as
one entry has come with it, and without one as soon as there are two.

Key definitions: `Emission.entriesOf`, `Emission.UniqueIndex.Keyed`.
Key theorems: `Emission.keys_claim`, `Emission.lookup_claimAll`,
`Emission.UniqueIndex.get?_ofEntries`, `Emission.UniqueIndex.Keyed.entries_perm`.
-/
import Deferral.Emission.UniqueIndex
import Mathlib.Data.List.Induction
import Mathlib.Data.List.Nodup

namespace Deferral
namespace Emission

variable {κ α : Type} [DecidableEq κ] {key k : κ} {value v : Option α}
variable {table entries : List (κ × Option α)}

/-! ### The table -/

/-- A key is added at the end, unless it is there. -/
theorem keys_claim (key : κ) (value : Option α) (table : List (κ × Option α)) :
    (claim key value table).map (·.1) =
      if key ∈ table.map (·.1) then table.map (·.1) else table.map (·.1) ++ [key] := by
  induction table with
  | nil => simp [claim]
  | cons e rest ih =>
    obtain ⟨k, v⟩ := e
    by_cases hk : k = key
    · simp [claim, hk]
    · simp only [claim, if_neg hk, List.map_cons, ih, List.mem_cons, Ne.symm hk, false_or]
      split <;> simp

theorem lookup_cons_ite {β : Type} (k k' : κ) (v : β) (rest : List (κ × β)) :
    ((k', v) :: rest).lookup k = if k = k' then some v else rest.lookup k := by
  rw [List.lookup_cons]
  by_cases hk : k = k'
  · rw [if_pos hk, beq_iff_eq.mpr hk]
  · rw [if_neg hk, beq_eq_false_iff_ne.mpr hk]

/-- A claimed key has the value that came with it, or none if it was claimed before. -/
theorem lookup_claim (key k : κ) (value : Option α) (table : List (κ × Option α)) :
    (claim key value table).lookup k =
      if k = key then some (if (table.lookup key).isSome then none else value)
      else table.lookup k := by
  induction table with
  | nil => simp [claim, lookup_cons_ite]
  | cons e rest ih =>
    obtain ⟨k', v⟩ := e
    by_cases hk' : k' = key
    · subst hk'
      simp only [claim, if_pos, lookup_cons_ite, Option.isSome_some]
      split <;> rfl
    · simp only [claim, if_neg hk', lookup_cons_ite, ih, if_neg (Ne.symm hk')]
      by_cases hk : k = k'
      · rw [if_pos hk, if_neg (hk ▸ hk'), if_pos hk]
      · rw [if_neg hk, if_neg hk]

theorem claimAll_concat (entries : List (κ × Option α)) (e : κ × Option α) :
    claimAll (entries ++ [e]) = claim e.1 e.2 (claimAll entries) := by
  simp [claimAll]

/-- A key that is added at the end unless it is there stands there once. -/
theorem nodup_keys {keys : List κ} (h : keys.Nodup) (key : κ) :
    (if key ∈ keys then keys else keys ++ [key]).Nodup := by
  split
  · exact h
  · exact List.nodup_append.mpr ⟨h, List.nodup_singleton _, by grind⟩

theorem nodup_claimAll (entries : List (κ × Option α)) : ((claimAll entries).map (·.1)).Nodup := by
  induction entries using List.reverseRecOn with
  | nil => exact List.nodup_nil
  | append_singleton entries e ih =>
    rw [claimAll_concat, keys_claim]
    exact nodup_keys ih e.1

/-- Where each key stands once, what is found under a key is what stands there. -/
theorem lookup_eq_some_iff_mem {β : Type} {l : List (κ × β)} (h : (l.map (·.1)).Nodup) {k : κ}
    {v : β} : l.lookup k = some v ↔ (k, v) ∈ l := by
  rw [List.lookup_eq_some_iff]
  constructor
  · rintro ⟨l₁, l₂, rfl, -⟩
    exact List.mem_append_right l₁ List.mem_cons_self
  · intro hmem
    obtain ⟨l₁, l₂, rfl⟩ := List.append_of_mem hmem
    refine ⟨l₁, l₂, rfl, fun e he => bne_iff_ne.mpr fun heq => ?_⟩
    rw [List.map_append, List.nodup_append] at h
    exact h.2.2 e.1 (List.mem_map_of_mem he) k (by simp) heq.symm

/-- The entries with a key. -/
def entriesOf (key : κ) (entries : List (κ × Option α)) : List (κ × Option α) :=
  entries.filter fun e => e.1 = key

/-- A key that came once has its value, and a key that came again has none. -/
theorem lookup_claimAll (key : κ) (entries : List (κ × Option α)) :
    (claimAll entries).lookup key =
      match entriesOf key entries with
      | [] => none
      | [e] => some e.2
      | _ => some none := by
  induction entries using List.reverseRecOn with
  | nil => rfl
  | append_singleton entries e ih =>
    rw [claimAll_concat, lookup_claim, entriesOf, List.filter_append, ← entriesOf]
    by_cases hk : key = e.1
    · subst hk
      rw [ih, if_pos rfl]
      rcases entriesOf e.1 entries with _ | ⟨e', _ | ⟨e'', rest⟩⟩ <;> simp
    · rw [if_neg hk, ih]
      simp [Ne.symm hk]

/-! ### What the index answers -/

namespace UniqueIndex

theorem get?_ofEntries_eq (key : κ) (entries : List (κ × Option α)) :
    (ofEntries entries).get? key = ((claimAll entries).lookup key).join := by
  have hnodup := nodup_claimAll entries
  rw [get?, ofEntries]
  generalize claimAll entries = table at hnodup
  induction table with
  | nil => rfl
  | cons e rest ih =>
    obtain ⟨k, v⟩ := e
    obtain ⟨hnot, hnodup⟩ := List.nodup_cons.mp hnodup
    have ih := ih hnodup
    rw [lookup_cons_ite]
    by_cases hk : key = k
    · subst hk
      cases v with
      | some v => simp
      | none =>
        -- the key does not stand further on
        have hrest : rest.lookup key = none := List.lookup_eq_none_iff.mpr fun e he =>
          bne_iff_ne.mpr fun heq => hnot (List.mem_map.mpr ⟨e, he, heq.symm⟩)
        rw [hrest] at ih
        simpa using ih
    · rw [if_neg hk, ← ih]
      cases v with
      | some v => simp [Ne.symm hk]
      | none => simp

/-- **A key has a value exactly when one entry came with it, and with that value.** -/
theorem get?_ofEntries {v : α} :
    (ofEntries entries).get? key = some v ↔ entriesOf key entries = [(key, some v)] := by
  rw [get?_ofEntries_eq, lookup_claimAll]
  have hkey : ∀ e ∈ entriesOf key entries, e.1 = key := by simp [entriesOf]
  rcases h : entriesOf key entries with _ | ⟨⟨k, v'⟩, _ | ⟨e', rest⟩⟩
  · simp
  · obtain rfl : k = key := hkey (k, v') (by simp [h])
    simp
  · simp

/-! ### The entries of an index -/

/-- Each key stands in the index once. -/
def Keyed (ix : UniqueIndex κ α) : Prop := (ix.entries.map (·.1)).Nodup

/-- The index collected from a table, whose cells are read in the order in which they stand. -/
def collect (table : List (κ × Option α)) : UniqueIndex κ α :=
  ⟨table.filterMap fun e => e.2.map fun v => (e.1, v)⟩

omit [DecidableEq κ] in
/-- Collecting adds no key. -/
theorem keyed_collect (h : (table.map (·.1)).Nodup) : (collect table).Keyed := by
  have hsub : ((collect table).entries.map (·.1)).Sublist (table.map (·.1)) := by
    clear h
    induction table with
    | nil => exact List.Sublist.refl _
    | cons e table ih =>
      obtain ⟨k, v⟩ := e
      cases v with
      | none => exact ih.cons k
      | some v => exact ih.cons_cons k
  exact h.sublist hsub

theorem keyed_ofEntries (entries : List (κ × Option α)) : (ofEntries entries).Keyed :=
  keyed_collect (nodup_claimAll entries)

theorem get?_eq_lookup (ix : UniqueIndex κ α) (k : κ) : ix.get? k = ix.entries.lookup k := by
  rw [get?]
  induction ix.entries with
  | nil => rfl
  | cons e l ih =>
    rw [lookup_cons_ite, List.find?_cons]
    grind

namespace Keyed

variable {ix ix' : UniqueIndex κ α}

theorem mem_iff (h : ix.Keyed) {k : κ} {v : α} : (k, v) ∈ ix.entries ↔ ix.get? k = some v := by
  rw [get?_eq_lookup, lookup_eq_some_iff_mem h]

/-- Two indexes that answer alike have the same entries. -/
theorem entries_perm (h : ix.Keyed) (h' : ix'.Keyed) (hget : ∀ k, ix.get? k = ix'.get? k) :
    ix.entries.Perm ix'.entries := by
  refine (List.perm_ext_iff_of_nodup ?_ ?_).mpr fun e => ?_
  · exact .of_map _ h
  · exact .of_map _ h'
  · rw [h.mem_iff, h'.mem_iff, hget]

end Keyed
end UniqueIndex
end Emission
end Deferral
