/-
# What stands alone among the entries of an index

An index keeps a key exactly if one entry has come with it, and that entry has a value. So neither
the order of the entries matters, nor the order in which the table is read when the index is
collected from it. An index of two lists together keeps what either list keeps alone, but for the
keys that the other one mentions, be it without a value.

Key definitions: `Emission.Single`, `Emission.UniqueIndex.Keeps`.
Key theorems: `Emission.entriesOf_eq_singleton_iff`, `Emission.single_append_iff`,
`Emission.UniqueIndex.Keeps.of_perm`, `Emission.UniqueIndex.keeps_single`.
-/
import Deferral.Proofs.UniqueKeys

namespace Deferral
namespace Emission

variable {κ α : Type} [DecidableEq κ] {k : κ} {v : α}
variable {entries entries' later table : List (κ × Option α)}

/-! ### Single entries -/

/-- Among the entries the key occurs once, with this value. -/
def Single (entries : List (κ × Option α)) (k : κ) (v : α) : Prop :=
  (entries.map (·.1)).count k = 1 ∧ (k, some v) ∈ entries

instance [DecidableEq α] (entries : List (κ × Option α)) (k : κ) (v : α) :
    Decidable (Single entries k v) :=
  inferInstanceAs (Decidable (_ ∧ _))

theorem length_entriesOf (k : κ) (entries : List (κ × Option α)) :
    (entriesOf k entries).length = (entries.map (·.1)).count k := by
  unfold entriesOf
  rw [List.count_eq_countP, List.countP_map, List.countP_eq_length_filter]
  rfl

/-- A key that occurs once has one entry, and this is the one. -/
theorem entriesOf_eq_singleton_iff :
    entriesOf k entries = [(k, some v)] ↔ Single entries k v := by
  have hmem : (k, some v) ∈ entriesOf k entries ↔ (k, some v) ∈ entries := by simp [entriesOf]
  constructor
  · intro h
    rw [h] at hmem
    refine ⟨?_, hmem.mp List.mem_cons_self⟩
    rw [← length_entriesOf, h]
    rfl
  · rintro ⟨hcount, hentry⟩
    rw [← length_entriesOf] at hcount
    obtain ⟨e, he⟩ := List.length_eq_one_iff.mp hcount
    have hsame : (k, some v) ∈ [e] := he ▸ hmem.mpr hentry
    rw [he, List.mem_singleton.mp hsame]

theorem Single.perm (h : entries.Perm entries') : Single entries k v ↔ Single entries' k v := by
  have hcount : (entries.map (·.1)).count k = (entries'.map (·.1)).count k :=
    (h.map (·.1)).count_eq k
  unfold Single
  rw [hcount, h.mem_iff]

/-- What is single in two lists together is single in one of them and not mentioned in the
other. -/
theorem single_append_iff : Single (entries ++ later) k v ↔
    Single entries k v ∧ k ∉ later.map (·.1) ∨ Single later k v ∧ k ∉ entries.map (·.1) := by
  have hmentioned : ∀ {l : List (κ × Option α)}, (k, some v) ∈ l → 0 < (l.map (·.1)).count k :=
    fun h => List.count_pos_iff.mpr (List.mem_map_of_mem h)
  unfold Single
  rw [List.map_append, List.count_append, List.mem_append]
  constructor
  · rintro ⟨hcount, hentry | hentry⟩
    · have hpos := hmentioned hentry
      exact .inl ⟨⟨by omega, hentry⟩, List.count_eq_zero.mp (by omega)⟩
    · have hpos := hmentioned hentry
      exact .inr ⟨⟨by omega, hentry⟩, List.count_eq_zero.mp (by omega)⟩
  · rintro (⟨⟨hcount, hentry⟩, hnot⟩ | ⟨⟨hcount, hentry⟩, hnot⟩)
    · have hzero := List.count_eq_zero.mpr hnot
      exact ⟨by omega, .inl hentry⟩
    · have hzero := List.count_eq_zero.mpr hnot
      exact ⟨by omega, .inr hentry⟩

/-! ### What an index keeps -/

namespace UniqueIndex

/-- The index has the keys that occur once, with their values, and each of them once. -/
structure Keeps (ix : UniqueIndex κ α) (entries : List (κ × Option α)) : Prop where
  keyed : ix.Keyed
  mem_iff : ∀ k v, (k, v) ∈ ix.entries ↔ Single entries k v
  get?_iff : ∀ k v, ix.get? k = some v ↔ Single entries k v

namespace Keeps

variable {ix ix' : UniqueIndex κ α}

theorem of_get? (h : ix.Keyed) (hget : ∀ k v, ix.get? k = some v ↔ Single entries k v) :
    ix.Keeps entries where
  keyed := h
  mem_iff k v := h.mem_iff.trans (hget k v)
  get?_iff := hget

/-- Indexes that keep the same answer alike. -/
theorem get?_eq (h : ix.Keeps entries) (h' : ix'.Keeps entries) (k : κ) :
    ix.get? k = ix'.get? k := by
  refine Option.ext fun v => ?_
  rw [h.get?_iff, h'.get?_iff]

theorem entries_perm (h : ix.Keeps entries) (h' : ix'.Keeps entries) :
    ix.entries.Perm ix'.entries :=
  h.keyed.entries_perm h'.keyed (h.get?_eq h')

/-- An index with the same entries in another order keeps the same. -/
theorem of_perm (h : ix.Keeps entries) (hix : ix'.entries.Perm ix.entries)
    (hp : entries'.Perm entries) : ix'.Keeps entries' := by
  have hkeys : (ix'.entries.map (·.1)).Perm (ix.entries.map (·.1)) := hix.map _
  have hkeyed : ix'.Keyed := hkeys.nodup_iff.mpr h.keyed
  refine .of_get? hkeyed fun k v => ?_
  rw [← hkeyed.mem_iff, hix.mem_iff, h.mem_iff, Single.perm hp]

end Keeps

theorem keeps_ofEntries (entries : List (κ × Option α)) : (ofEntries entries).Keeps entries :=
  .of_get? (keyed_ofEntries entries) fun _ _ =>
    get?_ofEntries.trans entriesOf_eq_singleton_iff

/-- The entries come in any order, and so do the cells of the table. -/
theorem keeps_collect (hp : entries'.Perm entries) (ht : table.Perm (claimAll entries')) :
    (collect table).Keeps entries := by
  have hentries : (collect table).entries.Perm (ofEntries entries').entries := ht.filterMap _
  exact (keeps_ofEntries entries').of_perm hentries hp.symm

/-- **An index keeps what occurs once, with a value.** It has these keys with their values, and no
others; and it is the same index whatever the order in which the entries came, and whatever the
order in which the table is read in the end. Of two lists together it has a key exactly if the
index of one of them has it and the other list does not mention it at all. -/
theorem keeps_single (entries : List (κ × Option α)) :
    (ofEntries entries).Keeps entries ∧
      (∀ entries' table : List (κ × Option α), entries'.Perm entries →
        table.Perm (claimAll entries') →
          (collect table).entries.Perm (ofEntries entries).entries ∧
            ∀ k, (collect table).get? k = (ofEntries entries).get? k) ∧
      ∀ (later : List (κ × Option α)) (k : κ) (v : α),
        (ofEntries (entries ++ later)).get? k = some v ↔
          (ofEntries entries).get? k = some v ∧ k ∉ later.map (·.1) ∨
            (ofEntries later).get? k = some v ∧ k ∉ entries.map (·.1) := by
  have hkeeps := keeps_ofEntries entries
  refine ⟨hkeeps, fun entries' table hp ht => ?_, fun later k v => ?_⟩
  · have hsame := keeps_collect hp ht
    exact ⟨hsame.entries_perm hkeeps, hsame.get?_eq hkeeps⟩
  · rw [(keeps_ofEntries (entries ++ later)).get?_iff, hkeeps.get?_iff,
      (keeps_ofEntries later).get?_iff]
    exact single_append_iff

/-- Two entries stand alone, one of them without a value; two keys come twice, first or second
without a value; and one comes three times. -/
def crowdedEntries : List (Nat × Option Nat) :=
  [(0, none), (1, some 4), (0, some 5), (2, some 6), (1, some 7), (3, none), (1, some 8),
    (4, some 9), (4, none)]

/-- In the opposite order, and with the table read backwards, the one key is kept that comes once
with a value. Once it is mentioned again it is not kept any more. -/
theorem keeps_single_crowded :
    crowdedEntries.reverse.Perm crowdedEntries ∧
      (claimAll crowdedEntries.reverse).reverse.Perm (claimAll crowdedEntries.reverse) ∧
      (collect (claimAll crowdedEntries.reverse).reverse).entries = [(2, 6)] ∧
      (∀ k v, (ofEntries crowdedEntries).get? k = some v ↔ Single crowdedEntries k v) ∧
      (∀ k, (collect (claimAll crowdedEntries.reverse).reverse).get? k =
        (ofEntries crowdedEntries).get? k) ∧
      (ofEntries (crowdedEntries ++ [(5, some 1), (2, none)])).get? 5 = some 1 ∧
      (ofEntries (crowdedEntries ++ [(5, some 1), (2, none)])).get? 2 ≠ some 6 := by
  obtain ⟨hkeeps, hsame, happend⟩ := keeps_single crowdedEntries
  have hentries := List.reverse_perm crowdedEntries
  have htable := List.reverse_perm (claimAll crowdedEntries.reverse)
  refine ⟨hentries, htable, by decide, hkeeps.get?_iff, (hsame _ _ hentries htable).2, ?_, ?_⟩
  · exact (happend [(5, some 1), (2, none)] 5 1).mpr (.inr (by decide))
  · rw [Ne, happend]
    decide

end UniqueIndex
end Emission
end Deferral
