/-
# JSON text is read back

A value is written without blanks, and what is written for it is read as the document of the value,
whatever follows that cannot be taken for more of a number. Each character that a string holds is
read back from what stands for it, and the reader has room for as many nested values as the text has
characters.

Key definitions: `Json.Value.doc`, `Json.Value.Fits`, `Json.EndsNumber`.
Key theorems: `Json.readString_print`, `Json.readNumber_print`, `Json.readDoc_print`,
`Json.read_text`.
-/
import Mathlib
import Deferral.Json.Reader
import Deferral.Json.Value
import Deferral.Proofs.FlagText

namespace Deferral
namespace Json

variable {rest : List Char}

/-! ### Strings -/

/-- A letter behind a backslash stands for one character. -/
theorem readString_letter {c d : Char} (hd : d ≠ 'u') (h : escaped? d = some c) :
    readString ('\\' :: d :: rest) = (readString rest).cons c := by
  rw [readString.eq_def]
  split
  all_goals rename_i heq
  all_goals cases heq
  · exact absurd rfl hd
  · exact absurd rfl hd
  · exact absurd rfl hd
  · rw [h]
  · rename_i hnot _
    exact absurd rfl (hnot d rest rfl)

/-- Four hexadecimal digits stand for a character by itself, unless they make a surrogate. -/
theorem readString_hex {a b c d : Char} {n : Nat} (h : hex4? a b c d = some n)
    (hhigh : isHighSurrogate n = false) (hlow : isLowSurrogate n = false) (rest : List Char) :
    readString ('\\' :: 'u' :: a :: b :: c :: d :: rest) =
      (readString rest).cons (Char.ofNat n) := by
  rw [readString.eq_def]
  split
  all_goals rename_i heq
  all_goals cases heq
  · simp only [h, hhigh, hlow, Bool.false_eq_true, if_false]
  · simp only [h, hhigh, hlow, Bool.false_eq_true, if_false]
  · rename_i hshort
    exact absurd rfl (hshort a b c d rest)
  · rename_i hnot _ _
    exact absurd rfl hnot
  · rename_i hnot _
    exact absurd rfl (hnot 'u' (a :: b :: c :: d :: rest) rfl)

theorem readString_plain {c : Char} (hquote : c ≠ '"') (hslash : c ≠ '\\')
    (hcontrol : ¬ c.toNat < 0x20) : readString (c :: rest) = (readString rest).cons c := by
  rw [readString.eq_def]
  split
  all_goals rename_i heq
  all_goals cases heq
  · exact absurd rfl hquote
  · exact absurd rfl hslash
  · exact absurd rfl hslash
  · exact absurd rfl hslash
  · exact absurd rfl hslash
  · exact absurd rfl hslash
  · rw [if_neg hcontrol]

theorem hex4?_control {n : Nat} (h : n < 0x20) :
    hex4? '0' '0' (Hex.digit (n / 16)) (Hex.digit (n % 16)) = some n := by
  have hzero : Hex.value? '0' = some 0 := by decide
  have hhigh := Hex.value?_digit (n / 16) (by omega)
  have hlow := Hex.value?_digit (n % 16) (by omega)
  simp only [hex4?, hzero, hhigh, hlow]
  congr 1
  omega

/-- A character is written as a letter or as digits behind a backslash, or as itself. -/
theorem printChar_cases (c : Char) :
    (∃ d, d ≠ 'u' ∧ escaped? d = some c ∧ printChar c = ['\\', d]) ∨
      (c.toNat < 0x20 ∧ printChar c =
        ['\\', 'u', '0', '0', Hex.digit (c.toNat / 16), Hex.digit (c.toNat % 16)]) ∨
      (c ≠ '"' ∧ c ≠ '\\' ∧ ¬ c.toNat < 0x20 ∧ printChar c = [c]) := by
  unfold printChar
  -- The seven characters that have a letter of their own come first.
  iterate 7
    split
    · subst_vars
      exact .inl ⟨_, by decide, by decide, rfl⟩
  split
  · exact .inr (.inl ⟨‹_›, rfl⟩)
  · rename_i hquote hslash _ _ _ _ _ hcontrol
    exact .inr (.inr ⟨hquote, hslash, hcontrol, rfl⟩)

/-- No control character is a surrogate. -/
theorem not_surrogate_of_control {n : Nat} (h : n < 0x20) :
    isHighSurrogate n = false ∧ isLowSurrogate n = false := by
  simp only [isHighSurrogate, isLowSurrogate, Bool.and_eq_false_iff, decide_eq_false_iff_not]
  omega

/-- A character is read back from what stands for it. -/
theorem readString_printChar (c : Char) :
    readString (printChar c ++ rest) = (readString rest).cons c := by
  rcases printChar_cases c with ⟨d, hd, hletter, hprint⟩ | ⟨hcontrol, hprint⟩ |
    ⟨hquote, hslash, hcontrol, hprint⟩
  · rw [hprint]
    exact readString_letter hd hletter
  · obtain ⟨hhigh, hlow⟩ := not_surrogate_of_control hcontrol
    have hread := readString_hex (hex4?_control hcontrol) hhigh hlow rest
    rw [Char.ofNat_toNat] at hread
    rwa [hprint]
  · rw [hprint]
    exact readString_plain hquote hslash hcontrol

/-- A string is read back, up to its closing quote. -/
theorem readString_print (cs rest : List Char) :
    readString (cs.flatMap printChar ++ '"' :: rest) = .ok (some cs) rest := by
  induction cs with
  | nil => simp [readString]
  | cons c cs ih =>
    rw [List.flatMap_cons, List.append_assoc, readString_printChar, ih]
    rfl

/-! ### Numbers -/

/-- What follows is not taken for more of a number. -/
def EndsNumber (rest : List Char) : Prop :=
  ∀ c ∈ rest.head?, c.isDigit = false ∧ c ≠ '.' ∧ c ≠ 'e' ∧ c ≠ 'E'

theorem endsNumber_nil : EndsNumber [] := by
  intro c hc
  cases hc

theorem endsNumber_comma : EndsNumber (',' :: rest) := by
  rintro c ⟨⟩
  decide

theorem endsNumber_bracket : EndsNumber (']' :: rest) := by
  rintro c ⟨⟩
  decide

theorem endsNumber_brace : EndsNumber ('\x7d' :: rest) := by
  rintro c ⟨⟩
  decide

theorem spanDigits_append {ds : List Char} (hds : ∀ c ∈ ds, c.isDigit = true)
    (hrest : EndsNumber rest) : spanDigits (ds ++ rest) = (ds, rest) := by
  have htake : rest.takeWhile Char.isDigit = [] ∧ rest.dropWhile Char.isDigit = rest := by
    cases rest with
    | nil => exact ⟨rfl, rfl⟩
    | cons c cs =>
      have hc : c.isDigit = false := (hrest c rfl).1
      exact ⟨List.takeWhile_cons_of_neg (by simp [hc]), List.dropWhile_cons_of_neg (by simp [hc])⟩
  rw [spanDigits, List.takeWhile_append_of_pos hds, List.dropWhile_append_of_pos hds, htake.1,
    htake.2, List.append_nil]

theorem le_ofDigitChars (ds : List Char) (n : Nat) : n ≤ Nat.ofDigitChars 10 ds n := by
  induction ds generalizing n with
  | nil => exact Nat.le_refl n
  | cons c ds ih =>
    rw [Nat.ofDigitChars_cons]
    have hle := ih (10 * n + (c.toNat - '0'.toNat))
    omega

/-- All digits are taken up while the number fits. -/
theorem absorb_eq {ds : List Char} {n : Nat}
    (h : Nat.ofDigitChars 10 ds n < 0x10000000000000000) :
    absorb n ds = (Nat.ofDigitChars 10 ds n, []) := by
  induction ds generalizing n with
  | nil => rfl
  | cons c ds ih =>
    rw [Nat.ofDigitChars_cons] at h ⊢
    have hstep : n * 10 + digitValue c = 10 * n + (c.toNat - '0'.toNat) := by
      rw [digitValue, Nat.mul_comm]
    have hle := le_ofDigitChars ds (10 * n + (c.toNat - '0'.toNat))
    rw [absorb, hstep, if_pos (by omega), ih h]

theorem digitChar_ne_zero : ∀ n < 10, 0 < n → n.digitChar ≠ '0' := by decide

/-- A positive number is written without a leading zero. -/
theorem head?_toDigits (n : Nat) (h : 0 < n) : (Nat.toDigits 10 n).head? ≠ some '0' := by
  induction n using Nat.strongRecOn with
  | ind n ih =>
    rcases Nat.lt_or_ge n 10 with hlt | hge
    · rw [Nat.toDigits_of_lt_base hlt]
      simpa using digitChar_ne_zero n hlt h
    · have hhead := ih (n / 10) (by omega) (by omega)
      rw [Nat.toDigits_of_base_le (by decide) hge,
        List.head?_append_of_ne_nil _ Nat.toDigits_ne_nil]
      exact hhead

theorem toDigits_ne_zero_cons (n : Nat) (c : Char) (cs : List Char) :
    Nat.toDigits 10 n ≠ '0' :: c :: cs := by
  intro h
  rcases Nat.eq_zero_or_pos n with rfl | hpos
  · rw [Nat.toDigits_of_lt_base (by decide)] at h
    cases h
  · exact head?_toDigits n hpos (by rw [h]; rfl)

/-- A natural number that fits is read back. -/
theorem readNumber_print {n : Nat} (hn : n < 0x10000000000000000) (hrest : EndsNumber rest) :
    readNumber false (Nat.toDigits 10 n ++ rest) = .ok (some (.natural n)) rest := by
  have hdigits : ∀ c ∈ Nat.toDigits 10 n, c.isDigit = true := fun c hc =>
    Nat.isDigit_of_mem_toDigits (by decide) (by decide) hc
  have hvalue : Nat.ofDigitChars 10 (Nat.toDigits 10 n) 0 = n :=
    Nat.ofDigitChars_toDigits (by decide) (by decide)
  have habsorb : absorb 0 (Nat.toDigits 10 n) = (n, []) := by
    rw [absorb_eq (by rwa [hvalue]), hvalue]
  rw [readNumber, spanDigits_append hdigits hrest]
  split
  all_goals rename_i heq
  · exact absurd (Prod.mk.inj heq).1 Nat.toDigits_ne_nil
  · exact absurd (Prod.mk.inj heq).1 Nat.toDigits_ne_nil
  · exact absurd (Prod.mk.inj heq).1 (toDigits_ne_zero_cons n _ _)
  · cases heq
    rw [habsorb]
    dsimp only
    split
    · exact absurd rfl (hrest _ rfl).2.1
    · exact absurd rfl (hrest _ rfl).2.2.1
    · exact absurd rfl (hrest _ rfl).2.2.2
    · simp [integerRead]

/-! ### Documents -/

mutual

/-- The document that a value is read as. -/
def Value.doc : Value → Doc
  | .null => .null
  | .bool b => .bool b
  | .natural n => .number (.natural n)
  | .string s => .string s
  | .array items => .array (docItems items)
  | .object members => .object (docMembers members)

/-- The documents that items are read as. -/
def docItems : List Value → Items
  | [] => .close
  | v :: vs => .more v.doc (docItems vs)

/-- The members that members are read as. -/
def docMembers : List (String × Value) → Members
  | [] => .close
  | (k, v) :: ms => .member (some k) v.doc (docMembers ms)

end

mutual

/-- The numbers in a value are read as natural numbers. -/
def Value.Fits : Value → Prop
  | .natural n => n < 0x10000000000000000
  | .array items => itemsFit items
  | .object members => membersFit members
  | _ => True

/-- The numbers in items are read as natural numbers. -/
def itemsFit : List Value → Prop
  | [] => True
  | v :: vs => v.Fits ∧ itemsFit vs

/-- The numbers in members are read as natural numbers. -/
def membersFit : List (String × Value) → Prop
  | [] => True
  | (_, v) :: ms => v.Fits ∧ membersFit ms

end

theorem skipBlanks_cons {c : Char} (h : isBlank c = false) : skipBlanks (c :: rest) = c :: rest :=
  List.dropWhile_cons_of_neg (by simp [h])

theorem toList_toString (n : Nat) : (toString n).toList = Nat.toDigits 10 n := by
  simp [Nat.toList_repr]

theorem blank_of_isDigit {c : Char} (h : c.isDigit = true) : isBlank c = false ∧ c ≠ ']' := by
  constructor
  · rw [Bool.eq_false_iff]
    intro hblank
    simp only [isBlank, Bool.or_eq_true, decide_eq_true_eq] at hblank
    rcases hblank with ((rfl | rfl) | rfl) | rfl <;> cases h
  · rintro rfl
    cases h

/-- A number starts with a digit. -/
theorem toDigits_head (n : Nat) : ∃ c cs, Nat.toDigits 10 n = c :: cs ∧ c.isDigit = true := by
  obtain ⟨c, cs, hcs⟩ := List.exists_cons_of_ne_nil (Nat.toDigits_ne_nil (n := n) (b := 10))
  refine ⟨c, cs, hcs, Nat.isDigit_of_mem_toDigits (by decide) (by decide) (n := n) (b := 10) ?_⟩
  rw [hcs]
  exact List.mem_cons_self

/-- What is written for a value starts with neither a blank nor a closing bracket. -/
theorem print_head (v : Value) :
    ∃ c cs, v.print = c :: cs ∧ isBlank c = false ∧ c ≠ ']' := by
  cases v with
  | null => exact ⟨'n', _, rfl, by decide, by decide⟩
  | bool b => cases b with
    | true => exact ⟨'t', _, rfl, by decide, by decide⟩
    | false => exact ⟨'f', _, rfl, by decide, by decide⟩
  | natural n =>
    obtain ⟨c, cs, hcs, hc⟩ := toDigits_head n
    exact ⟨c, cs, by rw [Value.print, toList_toString, hcs], blank_of_isDigit hc⟩
  | string s => exact ⟨'"', _, rfl, by decide, by decide⟩
  | array items => exact ⟨'[', _, rfl, by decide, by decide⟩
  | object members => exact ⟨'\x7b', _, rfl, by decide, by decide⟩

theorem printItems_cons (v : Value) (vs : List Value) :
    printItems (v :: vs) = v.print ++ if vs.isEmpty then [] else ',' :: printItems vs := by
  cases vs with
  | nil => simp [printItems]
  | cons w ws => rfl

theorem printMembers_cons (k : String) (v : Value) (ms : List (String × Value)) :
    printMembers ((k, v) :: ms) =
      printString k ++ ':' :: (v.print ++ if ms.isEmpty then [] else ',' :: printMembers ms) := by
  cases ms with
  | nil => simp [printMembers]
  | cons m ms => rfl

theorem readDoc_digit {c : Char} {depth : Nat} {cs : List Char} (h : c.isDigit = true) :
    readDoc (depth + 1) (c :: cs) = numberDoc (readNumber false (c :: cs)) := by
  rw [readDoc, skipBlanks_cons (blank_of_isDigit h).1]
  split
  all_goals rename_i heq
  all_goals cases heq
  case h_9 => rw [if_pos h]
  all_goals cases h

theorem readDoc_array {c : Char} {depth : Nat} {cs : List Char} (hblank : isBlank c = false)
    (hclose : c ≠ ']') :
    readDoc (depth + 1) ('[' :: c :: cs) =
      (.array (readItems depth (c :: cs)).1, (readItems depth (c :: cs)).2) := by
  rw [readDoc, skipBlanks_cons (by decide)]
  simp [skipBlanks_cons hblank, hclose]

theorem readDoc_object {c : Char} {depth : Nat} {cs : List Char} (hblank : isBlank c = false)
    (hclose : c ≠ '\x7d') :
    readDoc (depth + 1) ('\x7b' :: c :: cs) =
      (.object (readMembers depth (c :: cs)).1, (readMembers depth (c :: cs)).2) := by
  rw [readDoc, skipBlanks_cons (by decide)]
  simp [skipBlanks_cons hblank, hclose]

/-- An item with a comma behind it is followed by others. -/
theorem readItems_comma {v : Doc} {depth : Nat} {cs text : List Char}
    (h : readDoc depth text = (v, ',' :: cs)) :
    readItems (depth + 1) text = (.more v (readItems depth cs).1, (readItems depth cs).2) := by
  rw [readItems, h]
  simp [skipBlanks_cons (show isBlank ',' = false by decide)]

/-- An item with a closing bracket behind it is the last one. -/
theorem readItems_close {v : Doc} {depth : Nat} {text : List Char}
    (h : readDoc depth text = (v, ']' :: rest)) :
    readItems (depth + 1) text = (.more v .close, rest) := by
  rw [readItems, h]
  simp [skipBlanks_cons (show isBlank ']' = false by decide)]

/-- A member with a comma behind it is followed by others. -/
theorem readMembers_comma {k : String} {v : Doc} {depth : Nat} {cs text : List Char}
    (h : readDoc depth text = (v, ',' :: cs)) :
    readMembers (depth + 1) (printString k ++ ':' :: text) =
      (.member (some k) v (readMembers depth cs).1, (readMembers depth cs).2) := by
  rw [printString, List.cons_append, List.append_assoc, List.singleton_append, readMembers,
    skipBlanks_cons (by decide)]
  simp [readString_print, skipBlanks_cons (show isBlank ':' = false by decide),
    skipBlanks_cons (show isBlank ',' = false by decide), h]

/-- A member with a closing brace behind it is the last one. -/
theorem readMembers_close {k : String} {v : Doc} {depth : Nat} {text : List Char}
    (h : readDoc depth text = (v, '\x7d' :: rest)) :
    readMembers (depth + 1) (printString k ++ ':' :: text) = (.member (some k) v .close, rest) := by
  rw [printString, List.cons_append, List.append_assoc, List.singleton_append, readMembers,
    skipBlanks_cons (by decide)]
  simp [readString_print, skipBlanks_cons (show isBlank ':' = false by decide),
    skipBlanks_cons (show isBlank '\x7d' = false by decide), h]

theorem readDoc_string (s : String) (depth : Nat) :
    readDoc (depth + 1) (printString s ++ rest) = (.string s, rest) := by
  rw [printString, List.cons_append, List.append_assoc, List.singleton_append, readDoc,
    skipBlanks_cons (by decide)]
  simp [readString_print, stringDoc]

theorem readDoc_bool (b : Bool) (depth : Nat) :
    readDoc (depth + 1) ((Value.bool b).print ++ rest) = (.bool b, rest) := by
  cases b with
  | true =>
    simp [Value.print, readDoc, skipBlanks_cons (show isBlank 't' = false by decide), wordDoc,
      readWord]
  | false =>
    simp [Value.print, readDoc, skipBlanks_cons (show isBlank 'f' = false by decide), wordDoc,
      readWord]

-- The three readers call each other, so they are followed together. Twice the length of what was
-- written is room enough, since a value takes one level and its list of items another one.
mutual

/-- A value is read back, whatever follows that is not taken for more of it. -/
theorem readDoc_print (v : Value) (hv : v.Fits) (depth : Nat) (hdepth : 2 * v.print.length ≤ depth)
    (rest : List Char) (hrest : EndsNumber rest) :
    readDoc depth (v.print ++ rest) = (v.doc, rest) := by
  obtain ⟨depth, rfl⟩ : ∃ d, depth = d + 1 := by
    obtain ⟨c, cs, hhead, -, -⟩ := print_head v
    rw [hhead, List.length_cons] at hdepth
    exact ⟨depth - 1, by omega⟩
  cases v with
  | null =>
    simp [Value.print, readDoc, skipBlanks_cons (show isBlank 'n' = false by decide), wordDoc,
      readWord, Value.doc]
  | bool b => exact readDoc_bool b depth
  | natural n =>
    obtain ⟨c, cs, hcs, hc⟩ := toDigits_head n
    have hread := readNumber_print (n := n) hv hrest
    rw [Value.print, toList_toString]
    rw [hcs, List.cons_append] at hread ⊢
    rw [readDoc_digit hc, hread]
    rfl
  | string s => exact readDoc_string s depth
  | array items =>
    cases items with
    | nil =>
      simp [Value.print, printItems, readDoc, skipBlanks_cons (show isBlank '[' = false by decide),
        skipBlanks_cons (show isBlank ']' = false by decide), Value.doc, docItems]
    | cons v vs =>
      rw [Value.print, List.length_cons, List.length_append, List.length_singleton] at hdepth
      have hitems := readItems_print v vs hv depth (by omega) rest
      obtain ⟨c, cs, hhead, hblank, hclose⟩ := print_head v
      rw [Value.print, List.cons_append, List.append_assoc, List.singleton_append]
      rw [printItems_cons, hhead, List.cons_append, List.cons_append] at hitems ⊢
      rw [readDoc_array hblank hclose, hitems]
      rfl
  | object members =>
    cases members with
    | nil =>
      simp [Value.print, printMembers, readDoc,
        skipBlanks_cons (show isBlank '\x7b' = false by decide),
        skipBlanks_cons (show isBlank '\x7d' = false by decide), Value.doc, docMembers]
    | cons m ms =>
      obtain ⟨k, v⟩ := m
      rw [Value.print, List.length_cons, List.length_append, List.length_singleton] at hdepth
      have hmembers := readMembers_print k v ms hv depth (by omega) rest
      rw [Value.print, List.cons_append, List.append_assoc, List.singleton_append]
      rw [printMembers_cons, printString, List.cons_append, List.cons_append] at hmembers ⊢
      rw [readDoc_object (by decide) (by decide), hmembers]
      rfl
termination_by depth

/-- Items are read back up to their closing bracket. -/
theorem readItems_print (v : Value) (vs : List Value) (hfit : itemsFit (v :: vs)) (depth : Nat)
    (hdepth : 2 * (printItems (v :: vs)).length + 1 ≤ depth) (rest : List Char) :
    readItems depth (printItems (v :: vs) ++ ']' :: rest) = (docItems (v :: vs), rest) := by
  obtain ⟨depth, rfl⟩ : ∃ d, depth = d + 1 := ⟨depth - 1, by omega⟩
  cases vs with
  | nil =>
    rw [printItems] at hdepth ⊢
    exact readItems_close (readDoc_print v hfit.1 depth (by omega) _ endsNumber_bracket)
  | cons w ws =>
    rw [printItems, List.length_append, List.length_cons] at hdepth
    have hfirst := readDoc_print v hfit.1 depth (by omega)
      (',' :: (printItems (w :: ws) ++ ']' :: rest)) endsNumber_comma
    have hothers := readItems_print w ws hfit.2 depth (by omega) rest
    rw [printItems, List.append_assoc, List.cons_append, readItems_comma hfirst, hothers]
    rfl
termination_by depth

/-- Members are read back up to their closing brace. -/
theorem readMembers_print (k : String) (v : Value) (ms : List (String × Value))
    (hfit : membersFit ((k, v) :: ms)) (depth : Nat)
    (hdepth : 2 * (printMembers ((k, v) :: ms)).length + 1 ≤ depth) (rest : List Char) :
    readMembers depth (printMembers ((k, v) :: ms) ++ '\x7d' :: rest) =
      (docMembers ((k, v) :: ms), rest) := by
  obtain ⟨depth, rfl⟩ : ∃ d, depth = d + 1 := ⟨depth - 1, by omega⟩
  cases ms with
  | nil =>
    rw [printMembers] at hdepth ⊢
    rw [List.length_append, List.length_cons] at hdepth
    have hlast := readDoc_print v hfit.1 depth (by omega) ('\x7d' :: rest) endsNumber_brace
    rw [List.append_assoc, List.cons_append]
    exact readMembers_close hlast
  | cons m ms =>
    obtain ⟨l, w⟩ := m
    rw [printMembers, List.length_append, List.length_cons, List.length_append, List.length_cons]
      at hdepth
    have hfirst := readDoc_print v hfit.1 depth (by omega)
      (',' :: (printMembers ((l, w) :: ms) ++ '\x7d' :: rest)) endsNumber_comma
    have hothers := readMembers_print l w ms hfit.2 depth (by omega) rest
    rw [printMembers, List.append_assoc, List.cons_append, List.append_assoc, List.cons_append,
      readMembers_comma hfirst, hothers]
    rfl
termination_by depth

end

/-- **The text of a value is read as its document.** -/
theorem read_text {v : Value} (hv : v.Fits) : read v.text = (v.doc, true) := by
  have hread := readDoc_print v hv (2 * v.print.length + 2) (by omega) [] endsNumber_nil
  rw [List.append_nil] at hread
  rw [read, Value.text, String.toList_ofList, hread]
  rfl

end Json
end Deferral
