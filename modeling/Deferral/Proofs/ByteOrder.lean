/-
# The order of bytes is the order of code points

Strings are compared by code point, and UTF-8 is made so that this is the order of the encodings,
byte by byte. The encoding of a smaller character differs from that of a greater one in some byte,
and in the first such byte it is smaller; what follows does not matter. So a report that is sorted
by code points is sorted by bytes.

Key definitions: `utf8`, `Diagnostic.bytewise`, `StablySorted`.
Key theorems: `compare_utf8`, `Diagnostic.stablySorted_inReportOrder`.
-/
import Mathlib.Tactic.SplitIfs
import Deferral.Proofs.ReportOrder

namespace Deferral

/-! ### Bytes -/

/-- The UTF-8 encoding of a string. -/
def utf8 (s : String) : List UInt8 := s.toByteArray.data.toList

theorem utf8_eq (s : String) : utf8 s = s.toList.flatMap String.utf8EncodeChar := by
  rw [utf8, ← String.utf8Encode_toList, List.utf8Encode, List.toList_data_toByteArray]

section

variable {m n : Nat} {xs ys : List UInt8}

/-- The first byte decides, or leaves it to the rest. -/
theorem compare_cons_lt (hm : m < 256) (hn : n < 256)
    (h : m < n ∨ m = n ∧ compare xs ys = .lt) :
    compare (UInt8.ofNat m :: xs) (UInt8.ofNat n :: ys) = .lt := by
  rw [List.compare_cons_cons]
  rcases h with h | ⟨rfl, h⟩
  · have hlt : UInt8.ofNat m < UInt8.ofNat n := (UInt8.ofNat_lt_iff_lt hm hn).mpr h
    rw [show compare (UInt8.ofNat m) (UInt8.ofNat n) = .lt from compareOfLessAndEq_eq_lt.mpr hlt]
    rfl
  · rw [show compare (UInt8.ofNat m) (UInt8.ofNat m) = .eq from Std.ReflOrd.compare_self]
    exact h

theorem compare_append_left (zs : List UInt8) :
    compare (zs ++ xs) (zs ++ ys) = compare xs ys := by
  induction zs with
  | nil => rfl
  | cons z zs ih =>
    rw [List.cons_append, List.cons_append, List.compare_cons_cons, ih,
      show compare z z = .eq from Std.ReflOrd.compare_self]
    rfl

/-! ### Characters -/

/-- The last byte decides where all but the last six bits are the same. -/
theorem compare_lastByte (h : m < n) (hq : m / 64 = n / 64) :
    compare (UInt8.ofNat (m % 64 + 128) :: xs) (UInt8.ofNat (n % 64 + 128) :: ys) = .lt :=
  compare_cons_lt (by omega) (by omega) (.inl (by omega))

theorem compare_lastTwoBytes (h : m < n) (hq : m / 4096 = n / 4096) :
    compare (UInt8.ofNat (m / 64 % 64 + 128) :: UInt8.ofNat (m % 64 + 128) :: xs)
      (UInt8.ofNat (n / 64 % 64 + 128) :: UInt8.ofNat (n % 64 + 128) :: ys) = .lt := by
  refine compare_cons_lt (by omega) (by omega) ?_
  rcases Nat.lt_or_ge (m / 64) (n / 64) with hlt | hge
  · exact .inl (by omega)
  · exact .inr ⟨by omega, compare_lastByte h (by omega)⟩

theorem compare_lastThreeBytes (h : m < n) (hq : m / 262144 = n / 262144) :
    compare (UInt8.ofNat (m / 4096 % 64 + 128) :: UInt8.ofNat (m / 64 % 64 + 128) ::
        UInt8.ofNat (m % 64 + 128) :: xs)
      (UInt8.ofNat (n / 4096 % 64 + 128) :: UInt8.ofNat (n / 64 % 64 + 128) ::
        UInt8.ofNat (n % 64 + 128) :: ys) = .lt := by
  refine compare_cons_lt (by omega) (by omega) ?_
  rcases Nat.lt_or_ge (m / 4096) (n / 4096) with hlt | hge
  · exact .inl (by omega)
  · exact .inr ⟨by omega, compare_lastTwoBytes h (by omega)⟩

/-- The encoding of a smaller character is smaller, whatever follows. -/
theorem compare_utf8EncodeChar {a b : Char} (h : a < b) (xs ys : List UInt8) :
    compare (String.utf8EncodeChar a ++ xs) (String.utf8EncodeChar b ++ ys) = .lt := by
  have hab : a.val.toNat < b.val.toNat := h
  have hb : b.val.toNat < 1114112 := by
    rcases b.valid with hlt | ⟨-, hlt⟩
    · exact Nat.lt_trans hlt (by decide)
    · exact hlt
  rw [String.utf8EncodeChar.eq_1, String.utf8EncodeChar.eq_1]
  generalize a.val.toNat = m at hab ⊢
  generalize b.val.toNat = n at hab hb ⊢
  -- an encoding of more bytes begins with a greater byte
  split_ifs <;> simp only [List.cons_append, List.nil_append]
  all_goals try omega
  all_goals try exact compare_cons_lt (by omega) (by omega) (.inl (by omega))
  · refine compare_cons_lt (by omega) (by omega) ?_
    rcases Nat.lt_or_ge (m / 64) (n / 64) with hlt | hge
    · exact .inl (by omega)
    · exact .inr ⟨by omega, compare_lastByte hab (by omega)⟩
  · refine compare_cons_lt (by omega) (by omega) ?_
    rcases Nat.lt_or_ge (m / 4096) (n / 4096) with hlt | hge
    · exact .inl (by omega)
    · exact .inr ⟨by omega, compare_lastTwoBytes hab (by omega)⟩
  · refine compare_cons_lt (by omega) (by omega) ?_
    rcases Nat.lt_or_ge (m / 262144) (n / 262144) with hlt | hge
    · exact .inl (by omega)
    · exact .inr ⟨by omega, compare_lastThreeBytes hab (by omega)⟩

theorem utf8EncodeChar_ne_nil (c : Char) : String.utf8EncodeChar c ≠ [] := by
  rw [String.utf8EncodeChar.eq_1]
  split_ifs <;> exact List.cons_ne_nil _ _

end

/-! ### Strings -/

theorem compare_flatMap_utf8EncodeChar {l l' : List Char} (h : l < l') :
    compare (l.flatMap String.utf8EncodeChar) (l'.flatMap String.utf8EncodeChar) = .lt := by
  induction l generalizing l' with
  | nil =>
    cases l' with
    | nil => exact absurd h (List.lt_irrefl _)
    | cons b l' =>
      obtain ⟨x, xs, hx⟩ := List.exists_cons_of_ne_nil (utf8EncodeChar_ne_nil b)
      rw [List.flatMap_nil, List.flatMap_cons, hx]
      rfl
  | cons a l ih =>
    cases l' with
    | nil => exact absurd h (List.not_lt_nil _)
    | cons b l' =>
      rw [List.flatMap_cons, List.flatMap_cons]
      rcases List.cons_lt_cons_iff.mp h with hab | ⟨rfl, hl⟩
      · exact compare_utf8EncodeChar hab _ _
      · rw [compare_append_left]
        exact ih hl

theorem compare_utf8_of_lt {s t : String} (h : s < t) : compare (utf8 s) (utf8 t) = .lt := by
  rw [utf8_eq, utf8_eq]
  exact compare_flatMap_utf8EncodeChar (String.lt_iff.mp h)

/-- Strings are ordered as their bytes are. -/
theorem compare_utf8 (s t : String) : compare (utf8 s) (utf8 t) = compare s t := by
  cases hc : compare s t with
  | lt => exact compare_utf8_of_lt (compareOfLessAndEq_eq_lt.mp hc)
  | eq =>
    rw [Std.LawfulEqOrd.eq_of_compare hc]
    exact Std.ReflOrd.compare_self
  | gt =>
    have hts : compare t s = .lt := Std.OrientedCmp.gt_iff_lt.mp hc
    have hlt : t < s := compareOfLessAndEq_eq_lt.mp hts
    exact Std.OrientedCmp.gt_iff_lt.mpr (compare_utf8_of_lt hlt)

/-! ### Reports -/

/-- The elements in order, where those that compare as equal keep the order in which they came. -/
structure StablySorted {α : Type} (cmp : α → α → Ordering) (xs ys : List α) : Prop where
  perm : ys.Perm xs
  sorted : ys.Pairwise fun a b => (cmp a b).isLE = true
  stable : ∀ a, ys.filter (fun b => (cmp a b).isEq) = xs.filter fun b => (cmp a b).isEq

theorem stablySorted_mergeSort {α : Type} (cmp : α → α → Ordering) [Std.TransCmp cmp]
    (xs : List α) : StablySorted cmp xs (xs.mergeSort fun a b => (cmp a b).isLE) := by
  have htrans : ∀ a b c, (cmp a b).isLE = true → (cmp b c).isLE = true → (cmp a c).isLE = true :=
    fun _ _ _ => Std.TransCmp.isLE_trans
  have hperm := List.mergeSort_perm xs fun a b => (cmp a b).isLE
  refine ⟨hperm, List.pairwise_mergeSort htrans (isLE_total cmp) xs, fun a => ?_⟩
  -- those that compare as equal to `a` are in order before the sort, so it leaves them as they are
  have hequal : (xs.filter fun b => (cmp a b).isEq).Pairwise fun b c => (cmp b c).isLE = true := by
    rw [List.pairwise_filter]
    refine List.pairwise_of_forall fun b c hb hc => ?_
    rw [Ordering.isEq_iff_eq_eq] at hb hc
    rw [Std.TransCmp.congr_left (Std.OrientedCmp.eq_symm hb), hc]
    rfl
  have hsub := (List.sublist_mergeSort htrans (isLE_total cmp) hequal List.filter_sublist).filter
    fun b => (cmp a b).isEq
  rw [List.filter_filter] at hsub
  simp only [Bool.and_self] at hsub
  exact (hsub.eq_of_length (hperm.filter _).length_eq.symm).symm

namespace Diagnostic

/-- By file, start, end, code and message, strings by their UTF-8 bytes. -/
def bytewise (a b : Diagnostic) : Ordering :=
  (compare a.primary.file b.primary.file).then <|
    (compare a.primary.range.start b.primary.range.start).then <|
      (compare a.primary.range.stop b.primary.range.stop).then <|
        (compare (utf8 a.code) (utf8 b.code)).then (compare (utf8 a.message) (utf8 b.message))

theorem bytewise_eq_order : bytewise = order := by
  funext a b
  simp only [bytewise, order, compare_utf8]

/-- A report is the stable sort by bytes. -/
theorem stablySorted_inReportOrder (ds : List Diagnostic) :
    StablySorted bytewise ds (inReportOrder ds) :=
  bytewise_eq_order ▸ stablySorted_mergeSort order ds

end Diagnostic
end Deferral
