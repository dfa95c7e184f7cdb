/-
# Flags are read back from their text

A set of flags is the union of its flags with a name and of the bits without one. Its text has one
part for each of these, and bars between the parts with a blank on either side. No part has a bar or
a blank of its own, so splitting at the bars and trimming gives the parts again, and their union is
the set.

Key definitions: `Text.Solid`, `SiteFlags.pieces`.
Key theorems: `Hex.read_write`, `SiteFlags.unions_pieces`, `SiteFlags.ofText?_text`.
-/
import Mathlib
import Deferral.Flags.Text

namespace Deferral

/-! ### Parts between separators -/

namespace Text

/-- Neither blanks nor bars, and not nothing. -/
structure Solid (part : List Char) : Prop where
  ne_nil : part ≠ []
  not_blank : ∀ c ∈ part, isBlank c = false
  no_bar : '|' ∉ part

variable {part lead trail : List Char} {separator : Char}

theorem Solid.of_all (hne : part ≠ [])
    (h : (part.all fun c => !isBlank c && c != '|') = true) : Solid part where
  ne_nil := hne
  not_blank c hc := by
    have hall := List.all_eq_true.mp h c hc
    rw [Bool.and_eq_true] at hall
    simpa using hall.1
  no_bar hc := by
    have hall := List.all_eq_true.mp h '|' hc
    simp at hall

theorem Solid.reverse (h : Solid part) : Solid part.reverse where
  ne_nil := by simpa using h.ne_nil
  not_blank c hc := h.not_blank c (List.mem_reverse.mp hc)
  no_bar hc := h.no_bar (List.mem_reverse.mp hc)

theorem splitOn_of_not_mem (h : separator ∉ part) : splitOn separator part = [part] := by
  induction part with
  | nil => rfl
  | cons c part ih =>
    rw [List.mem_cons, not_or] at h
    rw [splitOn, if_neg (Ne.symm h.1), ih h.2]

/-- The first part ends at the first separator. -/
theorem splitOn_append (h : separator ∉ part) (rest : List Char) :
    splitOn separator (part ++ separator :: rest) = part :: splitOn separator rest := by
  induction part with
  | nil => simp [splitOn]
  | cons c part ih =>
    rw [List.mem_cons, not_or] at h
    rw [List.cons_append, splitOn, if_neg (Ne.symm h.1), ih h.2]

theorem trimStart_append (hlead : ∀ c ∈ lead, isBlank c = true) (hpart : Solid part)
    (rest : List Char) : trimStart (lead ++ (part ++ rest)) = part ++ rest := by
  rw [trimStart, List.dropWhile_append_of_pos hlead]
  obtain ⟨c, cs, rfl⟩ := List.exists_cons_of_ne_nil hpart.ne_nil
  rw [List.cons_append, List.dropWhile_cons_of_neg]
  rw [hpart.not_blank c List.mem_cons_self]
  exact Bool.false_ne_true

/-- What is not blank is not trimmed away. -/
theorem trim_ne_nil {cs : List Char} {c : Char} (hc : c ∈ cs) (h : isBlank c = false) :
    trim cs ≠ [] := by
  intro htrim
  rw [trim, List.reverse_eq_nil_iff, trimStart, List.dropWhile_eq_nil_iff] at htrim
  rw [← List.takeWhile_append_dropWhile (p := isBlank) (l := cs)] at hc
  have hblank : isBlank c = true := by
    rcases List.mem_append.mp hc with hc | hc
    · exact List.mem_takeWhile_imp hc
    · exact htrim c (List.mem_reverse.mpr hc)
  rw [h] at hblank
  exact Bool.false_ne_true hblank

/-- Trimming takes away the blanks around a part, and nothing else. -/
theorem trim_padded (hlead : ∀ c ∈ lead, isBlank c = true) (hpart : Solid part)
    (htrail : ∀ c ∈ trail, isBlank c = true) : trim (lead ++ (part ++ trail)) = part := by
  have hback : ∀ c ∈ trail.reverse, isBlank c = true := fun c hc =>
    htrail c (List.mem_reverse.mp hc)
  have h := trimStart_append hback hpart.reverse []
  rw [List.append_nil] at h
  rw [trim, trimStart_append hlead hpart, List.reverse_append, h, List.reverse_reverse]

end Text

/-! ### Hexadecimal digits -/

namespace Hex

theorem value?_digit : ∀ k < 16, value? (digit k) = some k := by decide

theorem digit_solid : ∀ k < 16,
    digit k ≠ '+' ∧ digit k ≠ '|' ∧ Text.isBlank (digit k) = false := by decide

theorem readFrom_digits {ks : List Nat} (h : ∀ k ∈ ks, k < 16) (acc : Nat) :
    readFrom acc (ks.map digit) = some (ks.foldl (fun n k => n * 16 + k) acc) := by
  induction ks generalizing acc with
  | nil => rfl
  | cons k ks ih =>
    have hk := value?_digit k (h k List.mem_cons_self)
    simp only [List.map_cons, readFrom, hk, List.foldl_cons]
    exact ih (fun j hj => h j (List.mem_cons_of_mem _ hj)) _

/-- A number is written by its digits to base sixteen, one at least. -/
theorem write_eq {n : Nat} (h : n < 65536) :
    ∃ ks : List Nat, write n = ks.map digit ∧ ks ≠ [] ∧ (∀ k ∈ ks, k < 16) ∧
      ks.foldl (fun n k => n * 16 + k) 0 = n := by
  unfold write
  dsimp only
  split
  · refine ⟨[n % 16], rfl, by simp, by simp; omega, ?_⟩
    simp only [List.foldl_cons, List.foldl_nil]
    omega
  split
  · refine ⟨[n / 16 % 16, n % 16], rfl, by simp, by simp; omega, ?_⟩
    simp only [List.foldl_cons, List.foldl_nil]
    omega
  split
  · refine ⟨[n / 256 % 16, n / 16 % 16, n % 16], rfl, by simp, by simp; omega, ?_⟩
    simp only [List.foldl_cons, List.foldl_nil]
    omega
  · refine ⟨[n / 4096 % 16, n / 256 % 16, n / 16 % 16, n % 16], rfl, by simp, by simp; omega, ?_⟩
    simp only [List.foldl_cons, List.foldl_nil]
    omega

theorem read_write {n : Nat} (h : n < 65536) : read (write n) = some n := by
  obtain ⟨ks, hwrite, hne, hlt, hvalue⟩ := write_eq h
  obtain ⟨k, ks, rfl⟩ := List.exists_cons_of_ne_nil hne
  rw [hwrite, List.map_cons, read, ← List.map_cons, readFrom_digits hlt, hvalue]

end Hex

namespace SiteFlags

/-! ### The pieces of a set -/

variable {f : SiteFlags}

@[simp] theorem empty_union (f : SiteFlags) : empty.union f = f := by simp [union, empty]

@[simp] theorem union_empty (f : SiteFlags) : f.union empty = f := by simp [union, empty]

theorem union_assoc (f g h : SiteFlags) : (f.union g).union h = f.union (g.union h) := by
  simp only [union, UInt16.or_assoc]

theorem intersection_union (f g h : SiteFlags) :
    f.intersection (g.union h) = (f.intersection g).union (f.intersection h) := by
  simp only [intersection, union, mk.injEq]
  apply UInt16.eq_of_toBitVec_eq
  simp only [UInt16.toBitVec_or, UInt16.toBitVec_and, BitVec.and_or_distrib_left]

/-- What is in another set and what is not make up the whole. -/
theorem intersection_union_difference (f g : SiteFlags) :
    (f.intersection g).union (f.difference g) = f := by
  obtain ⟨a⟩ := f
  obtain ⟨b⟩ := g
  simp only [intersection, union, difference, mk.injEq]
  apply UInt16.eq_of_toBitVec_eq
  rw [UInt16.toBitVec_or, UInt16.toBitVec_and, UInt16.toBitVec_and, UInt16.toBitVec_not]
  ext i hi
  simp only [BitVec.getElem_or, BitVec.getElem_and, BitVec.getElem_not]
  cases a.toBitVec[i] <;> simp

/-- The flags have one bit. -/
def IsBit (g : SiteFlags) : Prop := ∃ k, g.bits.toNat = 2 ^ k

/-- One bit is in a set, or apart from it. -/
theorem IsBit.intersection_eq {g : SiteFlags} (h : g.IsBit) (f : SiteFlags) :
    f.intersection g = if f.contains g then g else empty := by
  obtain ⟨k, hk⟩ := h
  have hand : f.bits &&& g.bits = g.bits ∨ f.bits &&& g.bits = 0 := by
    rw [← UInt16.toNat_inj, ← UInt16.toNat_inj, UInt16.toNat_and, hk, Nat.and_two_pow]
    cases f.bits.toNat.testBit k <;> simp
  by_cases hc : f.bits &&& g.bits = g.bits
  · simp [intersection, contains, hc]
  · have h0 := hand.resolve_left hc
    rw [intersection, contains, beq_eq_false_iff_ne.mpr hc, h0]
    rfl

theorem isBit_named : ∀ n ∈ named, n.2.IsBit := by
  intro n hn
  simp only [named, List.mem_cons, List.not_mem_nil, or_false] at hn
  rcases hn with rfl | rfl | rfl | rfl | rfl | rfl
  exacts [⟨0, rfl⟩, ⟨1, rfl⟩, ⟨2, rfl⟩, ⟨3, rfl⟩, ⟨4, rfl⟩, ⟨5, rfl⟩]

theorem foldl_union (sets : List SiteFlags) (acc : SiteFlags) :
    sets.foldl union acc = acc.union (unions sets) := by
  induction sets generalizing acc with
  | nil => simp [unions]
  | cons g sets ih =>
    rw [unions, List.foldl_cons, List.foldl_cons, ih, ih, empty_union, union_assoc]

theorem unions_cons (g : SiteFlags) (sets : List SiteFlags) :
    unions (g :: sets) = g.union (unions sets) := by
  rw [unions, List.foldl_cons, foldl_union, empty_union]

/-- The contained ones of some bits make up what the set has in common with all of them. -/
theorem unions_contained {l : List (String × SiteFlags)} (h : ∀ n ∈ l, n.2.IsBit)
    (f : SiteFlags) :
    unions ((l.filter fun n => f.contains n.2).map (·.2)) =
      f.intersection (unions (l.map (·.2))) := by
  induction l with
  | nil => simp [unions, intersection, empty]
  | cons n l ih =>
    have hrest := ih fun m hm => h m (List.mem_cons_of_mem _ hm)
    have hn := (h n List.mem_cons_self).intersection_eq f
    rw [List.map_cons, unions_cons, intersection_union, hn, ← hrest]
    cases hc : f.contains n.2 with
    | true =>
      have hkept : (n :: l).filter (fun n => f.contains n.2) =
          n :: l.filter fun n => f.contains n.2 := List.filter_cons_of_pos hc
      rw [hkept, List.map_cons, unions_cons, if_pos rfl]
    | false =>
      have hdropped : (n :: l).filter (fun n => f.contains n.2) =
          l.filter fun n => f.contains n.2 := List.filter_cons_of_neg (by simp [hc])
      rw [hdropped, if_neg (by simp), empty_union]

/-- The parts of the text form, each with the flags it stands for. -/
def pieces (f : SiteFlags) : List (String × SiteFlags) :=
  (named.filter fun n => f.contains n.2) ++
    if f.unnamed.isEmpty then []
    else [(String.ofList ('0' :: 'x' :: Hex.write f.unnamed.bits.toNat), f.unnamed)]

theorem parts_eq (f : SiteFlags) : f.parts = f.pieces.map (·.1) := by
  unfold parts pieces
  rw [List.map_append]
  split <;> rfl

theorem eq_empty_of_isEmpty (h : f.isEmpty = true) : f = empty := by
  obtain ⟨b⟩ := f
  simpa [isEmpty, empty] using h

/-- A set is the union of its pieces. -/
theorem unions_pieces (f : SiteFlags) : unions (f.pieces.map (·.2)) = f := by
  have hnamed : unions ((named.filter fun n => f.contains n.2).map (·.2)) = f.intersection all :=
    unions_contained isBit_named f
  have hrest : unions ((if f.unnamed.isEmpty then []
      else [(String.ofList ('0' :: 'x' :: Hex.write f.unnamed.bits.toNat), f.unnamed)]).map (·.2)) =
        f.unnamed := by
    split
    · exact (eq_empty_of_isEmpty ‹_›).symm
    · exact empty_union _
  rw [pieces, List.map_append, unions, List.foldl_append, ← unions, hnamed, foldl_union, hrest]
  exact intersection_union_difference f all

/-! ### Reading the pieces -/

/-- A part of a text that is read as these flags. -/
structure Reads (part : List Char) (g : SiteFlags) : Prop where
  solid : Text.Solid part
  read : ofPart? part = .ok g

theorem reads_named : ∀ n ∈ named, Reads n.1.toList n.2 := by
  have hne : (named.all fun n => !n.1.toList.isEmpty) = true := by cbv
  have hsolid : (named.all fun n =>
      n.1.toList.all fun c => !Text.isBlank c && c != '|') = true := by cbv
  have hread : named.map (fun n => ofPart? n.1.toList) = named.map fun n => .ok n.2 := by cbv
  intro n hn
  refine ⟨.of_all ?_ (List.all_eq_true.mp hsolid n hn), List.map_inj_left.mp hread n hn⟩
  simpa using List.all_eq_true.mp hne n hn

theorem ofHex?_write (f : SiteFlags) : ofHex? (Hex.write f.bits.toNat) = .ok f := by
  have hlt : f.bits.toNat < 65536 := f.bits.toNat_lt
  have hread := Hex.read_write hlt
  obtain ⟨ks, hwrite, hne, hdigits, -⟩ := Hex.write_eq hlt
  obtain ⟨k, ks, rfl⟩ := List.exists_cons_of_ne_nil hne
  have hplus := (Hex.digit_solid k (hdigits k List.mem_cons_self)).1
  unfold ofHex?
  rw [hwrite] at hread ⊢
  split
  · rename_i h
    simp_all
  · simp_all

theorem reads_hex (f : SiteFlags) : Reads ('0' :: 'x' :: Hex.write f.bits.toNat) f where
  solid := by
    obtain ⟨ks, hwrite, -, hdigits, -⟩ := Hex.write_eq f.bits.toNat_lt
    have hsolid : ∀ c ∈ ks.map Hex.digit, c ≠ '|' ∧ Text.isBlank c = false := by
      intro c hc
      obtain ⟨k, hk, rfl⟩ := List.mem_map.mp hc
      exact (Hex.digit_solid k (hdigits k hk)).2
    rw [hwrite]
    refine .of_all (by simp) ?_
    simp only [List.all_cons, List.all_eq_true, Bool.and_eq_true]
    refine ⟨by decide, by decide, fun c hc => ?_⟩
    obtain ⟨hbar, hblank⟩ := hsolid c hc
    simp [hbar, hblank]
  read := ofHex?_write f

theorem reads_pieces (f : SiteFlags) : ∀ n ∈ f.pieces, Reads n.1.toList n.2 := by
  intro n hn
  rcases List.mem_append.mp hn with hn | hn
  · exact reads_named n (List.mem_of_mem_filter hn)
  · split at hn
    · cases hn
    · rw [List.mem_singleton.mp hn]
      simpa using reads_hex f.unnamed

/-- Parts that stand between bars, with blanks before the first one, are read one by one. -/
theorem ofParts?_splitOn {l : List (List Char × SiteFlags)} (hne : l ≠ [])
    (h : ∀ n ∈ l, Reads n.1 n.2) {lead : List Char} (hblank : ∀ c ∈ lead, Text.isBlank c = true)
    (hbar : '|' ∉ lead) (acc : SiteFlags) :
    ofParts? acc (Text.splitOn '|' (lead ++ [' ', '|', ' '].intercalate (l.map (·.1)))) =
      .ok ((l.map (·.2)).foldl union acc) := by
  induction l generalizing lead acc with
  | nil => exact absurd rfl hne
  | cons n l ih =>
    obtain ⟨hsolid, hread⟩ := h n List.mem_cons_self
    cases l with
    | nil =>
      have hnone : ∀ c ∈ ([] : List Char), Text.isBlank c = true := by simp
      have htrim := Text.trim_padded hblank hsolid hnone
      rw [List.append_nil] at htrim
      have hno : '|' ∉ lead ++ n.1 := by simp [hbar, hsolid.no_bar]
      rw [List.map_singleton, List.intercalate_singleton, Text.splitOn_of_not_mem hno]
      simp [ofParts?, htrim, hread]
    | cons m l =>
      have hspace : ∀ c ∈ [' '], Text.isBlank c = true := List.forall_mem_singleton.mpr rfl
      have htrim := Text.trim_padded hblank hsolid hspace
      have hno : '|' ∉ lead ++ (n.1 ++ [' ']) := by simp [hbar, hsolid.no_bar]
      have hsplit : lead ++ [' ', '|', ' '].intercalate ((n :: m :: l).map (·.1)) =
          (lead ++ (n.1 ++ [' '])) ++
            '|' :: ([' '] ++ [' ', '|', ' '].intercalate ((m :: l).map (·.1))) := by
        rw [List.map_cons, List.map_cons, List.intercalate_cons_cons]
        simp
      rw [hsplit, Text.splitOn_append hno, ofParts?, htrim, hread]
      exact ih (by simp) (fun k hk => h k (List.mem_cons_of_mem _ hk)) hspace (by simp)
        (acc.union n.2)

/-- **Flags are read back from their text.** -/
theorem ofText?_text (f : SiteFlags) : ofText? f.text = .ok f := by
  let l := f.pieces.map fun n => (n.1.toList, n.2)
  have htext : f.text.toList = [' ', '|', ' '].intercalate (l.map (·.1)) := by
    rw [text, String.toList_intercalate, parts_eq, List.map_map, List.map_map]
    rfl
  have hunions : unions (l.map (·.2)) = f := by
    rw [List.map_map]
    exact unions_pieces f
  have hreads : ∀ n ∈ l, Reads n.1 n.2 := by
    intro n hn
    obtain ⟨m, hm, rfl⟩ := List.mem_map.mp hn
    exact reads_pieces f m hm
  rw [ofText?, ofChars?, htext]
  cases hl : l with
  | nil =>
    rw [hl] at hunions
    rw [← hunions]
    rfl
  | cons n l' =>
    have hn := (hreads n (hl ▸ List.mem_cons_self)).solid
    obtain ⟨c, hc⟩ := List.exists_mem_of_ne_nil _ hn.ne_nil
    have hmem : c ∈ [' ', '|', ' '].intercalate ((n :: l').map (·.1)) :=
      List.mem_flatten.mpr ⟨n.1, by cases l' <;> simp, hc⟩
    have hnone : ∀ c ∈ ([] : List Char), Text.isBlank c = true := by simp
    have hread := ofParts?_splitOn (l := n :: l') (by simp) (hl ▸ hreads) hnone (by simp) empty
    rw [if_neg (Text.trim_ne_nil hmem (hn.not_blank c hc)),
      ← List.nil_append (List.intercalate _ _), hread, ← unions, ← hl, hunions]

end SiteFlags
end Deferral
