/-
# Display names can be read back

A display name is put together without escapes, and its pieces may hold what stands between them: a
generic type has commas and spaces of its own. But it has them inside angle brackets, and the other
pieces have none. So each piece ends at the first stop outside of brackets, and the name can be
taken apart from the left: the return type of an operator up to a space, the containers up to
points, the method up to a bracket or parenthesis, the parameters up to commas. Two methods share a
name only if they agree on all that the name shows.

Key definitions: `Emission.IsPlainText`, `Emission.IsTypeText`, `Emission.Enclosed`,
`Emission.Signature.Readable`.
Key theorems: `Emission.Enclosed.append_cons_inj`, `Emission.isTypeText_iff`,
`Emission.listed_inj`, `Emission.Signature.displayName_eq_iff`.
-/
import Deferral.Emission.Signature

namespace Deferral
namespace Emission

/-! ### Pieces of a name -/

/-- The characters that stand between the pieces of a name. -/
def reserved : List Char := ['.', ',', '<', '>', '(', ')', ' ']

/-- Text without reserved characters. -/
def IsPlainText (s : String) : Prop := ∀ c ∈ s.toList, c ∉ reserved

/-- The characters that a type has inside angle brackets only. -/
def separators : List Char := [' ', ',', '(', ')']

/-- A type as it is written: some text whose angle brackets are balanced, and in which each space,
comma and parenthesis is inside of them. -/
structure IsTypeText (s : String) : Prop where
  nonempty : s ≠ ""
  opened : ∀ before after, s.toList = before ++ after → before.count '>' ≤ before.count '<'
  balanced : s.toList.count '>' = s.toList.count '<'
  inside : ∀ before c after, s.toList = before ++ c :: after → c ∈ separators →
    before.count '>' < before.count '<'

/-! ### Text up to a stop -/

/-- How many brackets are open after a character. -/
def depthAfter (depth : Nat) (c : Char) : Nat :=
  if c = '<' then depth + 1 else if c = '>' then depth - 1 else depth

/-- With `depth` brackets open, the text closes them all, and every stop in it is inside
brackets. -/
def Enclosed (stops : List Char) : Nat → List Char → Prop
  | depth, [] => depth = 0
  | depth, c :: cs => (depth = 0 → c ∉ stops) ∧ Enclosed stops (depthAfter depth c) cs

instance decidableEnclosed (stops : List Char) : ∀ depth cs, Decidable (Enclosed stops depth cs)
  | depth, [] => inferInstanceAs (Decidable (depth = 0))
  | depth, c :: cs =>
    have := decidableEnclosed stops (depthAfter depth c) cs
    inferInstanceAs (Decidable (_ ∧ _))

namespace Enclosed

variable {stops stops' : List Char} {depth : Nat} {a b r r' : List Char} {x y : Char}

theorem mono (h : Enclosed stops depth a) (hsub : ∀ c ∈ stops', c ∈ stops) :
    Enclosed stops' depth a := by
  induction a generalizing depth with
  | nil => exact h
  | cons c cs ih => exact ⟨fun h0 hc => h.1 h0 (hsub c hc), ih h.2⟩

theorem append (h : Enclosed stops depth a) (h' : Enclosed stops 0 b) :
    Enclosed stops depth (a ++ b) := by
  induction a generalizing depth with
  | nil =>
    obtain rfl : depth = 0 := h
    exact h'
  | cons c cs ih => exact ⟨h.1, ih h.2⟩

/-- Text without stops, of which a bracket is one. -/
theorem of_notMem (hopen : '<' ∈ stops) (hclose : '>' ∈ stops) (h : ∀ c ∈ a, c ∉ stops) :
    Enclosed stops 0 a := by
  induction a with
  | nil => rfl
  | cons c cs ih =>
    have hc : c ∉ stops := h c List.mem_cons_self
    have hdepth : depthAfter 0 c = 0 := by
      unfold depthAfter
      have hne : c ≠ '<' := fun h => hc (h ▸ hopen)
      have hne' : c ≠ '>' := fun h => hc (h ▸ hclose)
      rw [if_neg hne, if_neg hne']
    refine ⟨fun _ => hc, ?_⟩
    rw [hdepth]
    exact ih fun d hd => h d (List.mem_cons_of_mem _ hd)

/-- Text without brackets, in brackets. -/
theorem bracketed (hopen : '<' ∉ stops) (h : ∀ c ∈ a, c ≠ '<' ∧ c ≠ '>') :
    Enclosed stops 0 ('<' :: (a ++ ['>'])) := by
  have hrest : Enclosed stops 1 (a ++ ['>']) := by
    induction a with
    | nil => exact ⟨fun h0 => absurd h0 (by decide), rfl⟩
    | cons c cs ih =>
      obtain ⟨hc, hc'⟩ := h c List.mem_cons_self
      have hdepth : depthAfter 1 c = 1 := by simp [depthAfter, hc, hc']
      refine ⟨fun h0 => absurd h0 (by decide), ?_⟩
      rw [hdepth]
      exact ih fun d hd => h d (List.mem_cons_of_mem _ hd)
  exact ⟨fun _ => hopen, hrest⟩

/-- **A stop ends a piece.** Two texts that go on with a stop agree up to it. -/
theorem append_cons_inj (ha : Enclosed stops depth a) (hb : Enclosed stops depth b)
    (hx : x ∈ stops) (hy : y ∈ stops) (h : a ++ x :: r = b ++ y :: r') :
    a = b ∧ x = y ∧ r = r' := by
  induction a generalizing depth b with
  | nil =>
    cases b with
    | nil =>
      obtain ⟨hxy, hr⟩ := List.cons.inj h
      exact ⟨rfl, hxy, hr⟩
    | cons c cs =>
      obtain ⟨rfl, -⟩ := List.cons.inj h
      exact absurd hx (hb.1 ha)
  | cons c cs ih =>
    cases b with
    | nil =>
      obtain ⟨rfl, -⟩ := List.cons.inj h
      exact absurd hy (ha.1 hb)
    | cons d ds =>
      obtain ⟨rfl, hrest⟩ := List.cons.inj h
      obtain ⟨rfl, hxy, hr⟩ := ih ha.2 hb.2 hrest
      exact ⟨rfl, hxy, hr⟩

end Enclosed

/-- The stops of a type: the separators, and a bracket that closes. -/
def typeStops : List Char := '>' :: separators

/-- What is open after a character is what was open before, and what the character does to it. -/
theorem depthAfter_add {depth : Nat} {c : Char} (h : c = '>' → 0 < depth) (cs : List Char) :
    depthAfter depth c + cs.count '<' + (c :: cs).count '>' =
      depth + (c :: cs).count '<' + cs.count '>' := by
  unfold depthAfter
  by_cases hopen : c = '<'
  · subst hopen
    simp
    omega
  · by_cases hclose : c = '>'
    · subst hclose
      have hpos := h rfl
      simp
      omega
    · simp [hopen, hclose]

/-- What is read character by character can be said of the text as a whole. -/
theorem enclosed_iff (cs : List Char) : ∀ depth, Enclosed typeStops depth cs ↔
    (∀ before after, cs = before ++ after → before.count '>' ≤ depth + before.count '<') ∧
    cs.count '>' = depth + cs.count '<' ∧
    ∀ before c after, cs = before ++ c :: after → c ∈ separators →
      before.count '>' < depth + before.count '<' := by
  induction cs with
  | nil =>
    intro depth
    simp [Enclosed, eq_comm]
  | cons c cs ih =>
    intro depth
    have hhead : (c = '>' → 0 < depth) ∧ (c ∈ separators → 0 < depth) ↔
        (depth = 0 → c ∉ typeStops) := by
      unfold typeStops
      rw [List.mem_cons]
      rcases Nat.eq_zero_or_pos depth with rfl | hpos
      · simp
      · have hne : depth ≠ 0 := Nat.ne_of_gt hpos
        simp [hpos, hne]
    unfold Enclosed
    rw [← hhead, ih]
    constructor
    · rintro ⟨⟨hclose, hsep⟩, hopened, hbalanced, hinside⟩
      have hdepth := depthAfter_add hclose
      refine ⟨?_, ?_, ?_⟩
      · rintro (_ | ⟨d, before⟩) after h
        · simp
        · obtain ⟨rfl, hrest⟩ := List.cons.inj h
          have hle := hopened before after hrest
          have hadd := hdepth before
          omega
      · have hadd := hdepth cs
        omega
      · rintro (_ | ⟨d, before⟩) e after h he
        · obtain ⟨rfl, -⟩ := List.cons.inj h
          simpa using hsep he
        · obtain ⟨rfl, hrest⟩ := List.cons.inj h
          have hlt := hinside before e after hrest he
          have hadd := hdepth before
          omega
    · rintro ⟨hopened, hbalanced, hinside⟩
      have hclose : c = '>' → 0 < depth := by
        rintro rfl
        have hle : 1 ≤ depth + 0 := hopened ['>'] cs rfl
        omega
      have hdepth := depthAfter_add hclose
      refine ⟨⟨hclose, fun hc => ?_⟩, ?_, ?_, ?_⟩
      · simpa using hinside [] c cs rfl hc
      · intro before after h
        have hle := hopened (c :: before) after (by rw [h, List.cons_append])
        have hadd := hdepth before
        omega
      · have hadd := hdepth cs
        omega
      · intro before e after h he
        have hlt := hinside (c :: before) e after (by rw [h, List.cons_append]) he
        have hadd := hdepth before
        omega

theorem isTypeText_iff {s : String} : IsTypeText s ↔ s ≠ "" ∧ Enclosed typeStops 0 s.toList := by
  rw [enclosed_iff]
  simp only [Nat.zero_add]
  exact ⟨fun h => ⟨h.nonempty, h.opened, h.balanced, h.inside⟩,
    fun ⟨h, ho, hb, hi⟩ => ⟨h, ho, hb, hi⟩⟩

instance (s : String) : Decidable (IsTypeText s) := decidable_of_iff _ isTypeText_iff.symm

instance (s : String) : Decidable (IsPlainText s) :=
  List.decidableBAll (fun c => c ∉ reserved) s.toList

theorem IsTypeText.enclosed {s : String} (h : IsTypeText s) : Enclosed typeStops 0 s.toList :=
  (isTypeText_iff.mp h).2

theorem IsPlainText.enclosed {s : String} (h : IsPlainText s) : Enclosed reserved 0 s.toList :=
  .of_notMem (by decide) (by decide) h

/-- Plain text has no stop of a type either. -/
theorem IsPlainText.enclosed_type {s : String} (h : IsPlainText s) :
    Enclosed typeStops 0 s.toList :=
  h.enclosed.mono (by simp [typeStops, separators, reserved])

section

variable {s t : String} {x y : Char} {r r' : List Char}

theorem IsTypeText.append_cons_inj (hs : IsTypeText s) (ht : IsTypeText t) (hx : x ∈ typeStops)
    (hy : y ∈ typeStops) (h : s.toList ++ x :: r = t.toList ++ y :: r') :
    s = t ∧ x = y ∧ r = r' := by
  obtain ⟨htext, hrest⟩ := hs.enclosed.append_cons_inj ht.enclosed hx hy h
  exact ⟨String.toList_inj.mp htext, hrest⟩

theorem IsPlainText.append_cons_inj (hs : IsPlainText s) (ht : IsPlainText t) (hx : x ∈ reserved)
    (hy : y ∈ reserved) (h : s.toList ++ x :: r = t.toList ++ y :: r') :
    s = t ∧ x = y ∧ r = r' := by
  obtain ⟨htext, hrest⟩ := hs.enclosed.append_cons_inj ht.enclosed hx hy h
  exact ⟨String.toList_inj.mp htext, hrest⟩

end

/-! ### Lists of pieces -/

section

variable {α : Type} {text : α → List Char} {P : α → Prop} {close : Char} {r r' : List Char}

/-- What stands behind the first piece of a list: the other pieces, each after a comma and a space,
the closing character, and the rest. -/
def listed (text : α → List Char) (close : Char) : List α → List Char → List Char
  | [], rest => close :: rest
  | a :: as, rest => ',' :: ' ' :: (text a ++ listed text close as rest)

theorem intercalate_eq_listed (a : α) (as : List α) (rest : List Char) :
    [',', ' '].intercalate ((a :: as).map text) ++ close :: rest =
      text a ++ listed text close as rest := by
  induction as generalizing a with
  | nil => simp [listed]
  | cons b bs ih =>
    have hb := ih b
    rw [List.map_cons] at hb
    rw [List.map_cons, List.map_cons, List.intercalate_cons_cons, listed, ← hb]
    simp

/-- Each piece with the property ends at the next comma or closing character. -/
def Delimited (text : α → List Char) (P : α → Prop) (close : Char) : Prop :=
  ∀ a b, P a → P b → ∀ x ∈ [',', close], ∀ y ∈ [',', close], ∀ r r',
    text a ++ x :: r = text b ++ y :: r' → a = b ∧ x = y ∧ r = r'

theorem listed_stop (text : α → List Char) (close : Char) (as : List α) (rest : List Char) :
    ∃ x ∈ [',', close], ∃ cs, listed text close as rest = x :: cs := by
  cases as with
  | nil => exact ⟨close, by simp, rest, rfl⟩
  | cons a as => exact ⟨',', by simp, _, rfl⟩

theorem Delimited.piece_inj (hd : Delimited text P close) {a b : α} {as bs : List α} (ha : P a)
    (hb : P b) (h : text a ++ listed text close as r = text b ++ listed text close bs r') :
    a = b ∧ listed text close as r = listed text close bs r' := by
  obtain ⟨x, hx, cs, hcs⟩ := listed_stop text close as r
  obtain ⟨y, hy, ds, hds⟩ := listed_stop text close bs r'
  rw [hcs, hds] at h
  obtain ⟨rfl, rfl, rfl⟩ := hd a b ha hb x hx y hy cs ds h
  exact ⟨rfl, hcs.trans hds.symm⟩

theorem Delimited.listed_inj (hd : Delimited text P close) (hclose : close ≠ ',') :
    ∀ {as bs : List α}, (∀ a ∈ as, P a) → (∀ b ∈ bs, P b) →
      listed text close as r = listed text close bs r' → as = bs ∧ r = r'
  | [], [], _, _, h => ⟨rfl, (List.cons.inj h).2⟩
  | [], _ :: _, _, _, h => absurd (List.cons.inj h).1 hclose
  | _ :: _, [], _, _, h => absurd (List.cons.inj h).1.symm hclose
  | a :: as, b :: bs, ha, hb, h => by
    have hpieces : text a ++ listed text close as r = text b ++ listed text close bs r' := by
      simpa [listed] using h
    obtain ⟨rfl, hothers⟩ :=
      hd.piece_inj (ha a List.mem_cons_self) (hb b List.mem_cons_self) hpieces
    obtain ⟨rfl, hr⟩ := hd.listed_inj hclose (fun c hc => ha c (List.mem_cons_of_mem _ hc))
      (fun c hc => hb c (List.mem_cons_of_mem _ hc)) hothers
    exact ⟨rfl, hr⟩

end

theorem delimited_plainText : Delimited String.toList IsPlainText '>' := by
  intro a b ha hb x hx y hy r r' h
  have hsub : ∀ c ∈ [',', '>'], c ∈ reserved := by simp [reserved]
  exact ha.append_cons_inj hb (hsub x hx) (hsub y hy) h

/-! ### Parameters -/

/-- What stands before the type of a parameter is nothing, or a word and a space. -/
theorem Passing.marker_cases (m : Passing) :
    m = .value ∨ ∃ word : List Char, m.marker.toList = word ++ [' '] ∧
      Enclosed typeStops 0 word := by
  cases m with
  | value => exact .inl rfl
  | ref => exact .inr ⟨['r', 'e', 'f'], by decide, by decide⟩
  | out => exact .inr ⟨['o', 'u', 't'], by decide, by decide⟩
  | params => exact .inr ⟨['p', 'a', 'r', 'a', 'm', 's'], by decide, by decide⟩
  | this => exact .inr ⟨['t', 'h', 'i', 's'], by decide, by decide⟩

theorem Passing.marker_inj {m m' : Passing} (h : m.marker.toList = m'.marker.toList) : m = m' := by
  cases m <;> cases m' <;> first | rfl | exact absurd h (by decide)

theorem Parameter.toList_display (p : Parameter) :
    p.display.toList = p.mode.marker.toList ++ p.type.toList := String.toList_append

theorem delimited_display :
    Delimited (fun p : Parameter => p.display.toList) (fun p => IsTypeText p.type) ')' := by
  rintro ⟨type, mode⟩ ⟨type', mode'⟩ htype htype' x hx y hy r r' h
  have hsub : ∀ c ∈ [',', ')'], c ∈ typeStops := by simp [typeStops, separators]
  have hspace : ∀ c ∈ [',', ')'], c ≠ ' ' := by simp
  have hspace_mem : ' ' ∈ typeStops := by decide
  simp only [Parameter.toList_display, List.append_assoc] at h
  -- a space outside of brackets tells that there is a marker
  rcases mode.marker_cases with rfl | ⟨word, hword, hstops⟩
  · rcases mode'.marker_cases with rfl | ⟨word', hword', hstops'⟩
    · obtain ⟨rfl, hrest⟩ := htype.append_cons_inj htype' (hsub x hx) (hsub y hy) h
      exact ⟨rfl, hrest⟩
    · rw [hword', List.append_assoc] at h
      obtain ⟨-, hstop, -⟩ := htype.enclosed.append_cons_inj hstops' (hsub x hx) hspace_mem h
      exact absurd hstop (hspace x hx)
  · rcases mode'.marker_cases with rfl | ⟨word', hword', hstops'⟩
    · rw [hword, List.append_assoc] at h
      obtain ⟨-, hstop, -⟩ := hstops.append_cons_inj htype'.enclosed hspace_mem (hsub y hy) h
      exact absurd hstop.symm (hspace y hy)
    · rw [hword, hword', List.append_assoc, List.append_assoc] at h
      obtain ⟨rfl, -, htypes⟩ := hstops.append_cons_inj hstops' hspace_mem hspace_mem h
      obtain rfl : mode = mode' := Passing.marker_inj (hword.trans hword'.symm)
      obtain ⟨rfl, hrest⟩ := htype.append_cons_inj htype' (hsub x hx) (hsub y hy) htypes
      exact ⟨rfl, hrest⟩

/-- A parameter does not begin as the end of the list does. -/
theorem Parameter.display_head {p : Parameter} (h : IsTypeText p.type) (cs : List Char) :
    ∃ c ds, p.display.toList ++ cs = c :: ds ∧ c ≠ ')' := by
  have hstop : ')' ∈ typeStops := by decide
  rw [p.toList_display]
  rcases p.mode.marker_cases with hmode | ⟨word, hword, hstops⟩
  · have hnonempty : p.type.toList ≠ [] := fun h0 => h.nonempty (String.toList_eq_nil_iff.mp h0)
    obtain ⟨c, ds, hcs⟩ := List.exists_cons_of_ne_nil hnonempty
    have henclosed := h.enclosed
    rw [hcs] at henclosed
    rw [hmode, hcs]
    exact ⟨c, ds ++ cs, rfl, fun hc => henclosed.1 rfl (hc ▸ hstop)⟩
  · rw [hword]
    cases word with
    | nil => exact ⟨' ', p.type.toList ++ cs, rfl, by decide⟩
    | cons c ds => exact ⟨c, _, rfl, fun hc => hstops.1 rfl (hc ▸ hstop)⟩

/-- The parameters of a method, after the opening parenthesis. -/
def paramsText (ps : List Parameter) (rest : List Char) : List Char :=
  [',', ' '].intercalate (ps.map fun p => p.display.toList) ++ ')' :: rest

theorem paramsText_inj {ps qs : List Parameter} {r r' : List Char}
    (hps : ∀ p ∈ ps, IsTypeText p.type) (hqs : ∀ q ∈ qs, IsTypeText q.type)
    (h : paramsText ps r = paramsText qs r') : ps = qs ∧ r = r' := by
  unfold paramsText at h
  cases ps with
  | nil =>
    cases qs with
    | nil => exact ⟨rfl, (List.cons.inj h).2⟩
    | cons q qs =>
      rw [intercalate_eq_listed] at h
      obtain ⟨c, ds, hcs, hc⟩ := Parameter.display_head (hqs q List.mem_cons_self) _
      exact absurd (List.cons.inj (h.trans hcs)).1.symm hc
  | cons p ps =>
    rw [intercalate_eq_listed] at h
    cases qs with
    | nil =>
      obtain ⟨c, ds, hcs, hc⟩ := Parameter.display_head (hps p List.mem_cons_self) _
      exact absurd (List.cons.inj (hcs.symm.trans h)).1 hc
    | cons q qs =>
      rw [intercalate_eq_listed] at h
      obtain ⟨rfl, hothers⟩ :=
        delimited_display.piece_inj (hps p List.mem_cons_self) (hqs q List.mem_cons_self) h
      obtain ⟨rfl, hr⟩ := delimited_display.listed_inj (by decide)
        (fun d hd => hps d (List.mem_cons_of_mem _ hd))
        (fun d hd => hqs d (List.mem_cons_of_mem _ hd)) hothers
      exact ⟨rfl, hr⟩

/-! ### Containers and type parameters -/

/-- Containers, each with a point after it. -/
def dotted (containers : List String) : List Char :=
  containers.flatMap fun c => c.toList ++ ['.']

/-- The name is behind the last container; it ends at a bracket or parenthesis. -/
theorem dotted_inj {name name' : String} {x y : Char} {r r' : List Char} (hname : IsPlainText name)
    (hname' : IsPlainText name') (hx : x ∈ ['<', '(']) (hy : y ∈ ['<', '(']) :
    ∀ {cs ds : List String}, (∀ c ∈ cs, IsPlainText c) → (∀ d ∈ ds, IsPlainText d) →
      dotted cs ++ (name.toList ++ x :: r) = dotted ds ++ (name'.toList ++ y :: r') →
      cs = ds ∧ name = name' ∧ x = y ∧ r = r' := by
  have hsub : ∀ c ∈ ['<', '('], c ∈ reserved := by simp [reserved]
  have hpoint : ∀ c ∈ ['<', '('], c ≠ '.' := by simp
  have hpoint_mem : '.' ∈ reserved := by decide
  intro cs
  induction cs with
  | nil =>
    intro ds _ hds h
    cases ds with
    | nil =>
      obtain ⟨rfl, hrest⟩ := hname.append_cons_inj hname' (hsub x hx) (hsub y hy) h
      exact ⟨rfl, rfl, hrest⟩
    | cons d ds =>
      have hd : IsPlainText d := hds d List.mem_cons_self
      have h : name.toList ++ x :: r =
          d.toList ++ '.' :: (dotted ds ++ (name'.toList ++ y :: r')) := by
        simpa [dotted] using h
      obtain ⟨-, hstop, -⟩ := hname.append_cons_inj hd (hsub x hx) hpoint_mem h
      exact absurd hstop (hpoint x hx)
  | cons c cs ih =>
    intro ds hcs hds h
    have hc : IsPlainText c := hcs c List.mem_cons_self
    cases ds with
    | nil =>
      have h : c.toList ++ '.' :: (dotted cs ++ (name.toList ++ x :: r)) =
          name'.toList ++ y :: r' := by
        simpa [dotted] using h
      obtain ⟨-, hstop, -⟩ := hc.append_cons_inj hname' hpoint_mem (hsub y hy) h
      exact absurd hstop.symm (hpoint y hy)
    | cons d ds =>
      have hd : IsPlainText d := hds d List.mem_cons_self
      have h : c.toList ++ '.' :: (dotted cs ++ (name.toList ++ x :: r)) =
          d.toList ++ '.' :: (dotted ds ++ (name'.toList ++ y :: r')) := by
        simpa [dotted] using h
      obtain ⟨rfl, -, hothers⟩ := hc.append_cons_inj hd hpoint_mem hpoint_mem h
      obtain ⟨rfl, hrest⟩ := ih (fun e he => hcs e (List.mem_cons_of_mem _ he))
        (fun e he => hds e (List.mem_cons_of_mem _ he)) hothers
      exact ⟨rfl, hrest⟩

theorem enclosed_dotted {cs : List String} (h : ∀ c ∈ cs, IsPlainText c) :
    Enclosed typeStops 0 (dotted cs) := by
  induction cs with
  | nil => rfl
  | cons c cs ih =>
    have hc : Enclosed typeStops 0 c.toList := (h c List.mem_cons_self).enclosed_type
    have hpoint : Enclosed typeStops 0 ['.'] := by decide
    exact (hc.append hpoint).append (ih fun d hd => h d (List.mem_cons_of_mem _ hd))

/-- Type parameters in angle brackets, if there are any, and then the parameters. -/
def typeParamsText : List String → List Char → List Char
  | [], rest => '(' :: rest
  | t :: ts, rest => '<' :: (t.toList ++ listed String.toList '>' ts ('(' :: rest))

theorem typeParamsText_head (ts : List String) (rest : List Char) :
    ∃ x ∈ ['<', '('], ∃ cs, typeParamsText ts rest = x :: cs := by
  cases ts with
  | nil => exact ⟨'(', by decide, rest, rfl⟩
  | cons t ts => exact ⟨'<', by decide, _, rfl⟩

theorem typeParamsText_inj {ts us : List String} {r r' : List Char}
    (hts : ∀ t ∈ ts, IsPlainText t) (hus : ∀ u ∈ us, IsPlainText u)
    (h : typeParamsText ts r = typeParamsText us r') : ts = us ∧ r = r' := by
  cases ts with
  | nil =>
    cases us with
    | nil => exact ⟨rfl, (List.cons.inj h).2⟩
    | cons u us => exact absurd (List.cons.inj h).1 (by decide)
  | cons t ts =>
    cases us with
    | nil => exact absurd (List.cons.inj h).1 (by decide)
    | cons u us =>
      obtain ⟨rfl, hothers⟩ := delimited_plainText.piece_inj (hts t List.mem_cons_self)
        (hus u List.mem_cons_self) (List.cons.inj h).2
      obtain ⟨rfl, hrest⟩ := delimited_plainText.listed_inj (by decide)
        (fun d hd => hts d (List.mem_cons_of_mem _ hd))
        (fun d hd => hus d (List.mem_cons_of_mem _ hd)) hothers
      exact ⟨rfl, (List.cons.inj hrest).2⟩

/-- The brackets around type parameters are the only ones. -/
theorem ne_bracket_of_mem {ts : List String} (h : ∀ t ∈ ts, IsPlainText t) :
    ∀ c ∈ [',', ' '].intercalate (ts.map String.toList), c ≠ '<' ∧ c ≠ '>' := by
  have hplain : ∀ t ∈ ts, ∀ c ∈ t.toList, c ≠ '<' ∧ c ≠ '>' := by
    intro t ht c hc
    have hreserved : c ∉ reserved := h t ht c hc
    constructor <;> rintro rfl <;> exact hreserved (by decide)
  clear h
  induction ts with
  | nil => simp
  | cons t ts ih =>
    have hothers := ih fun u hu => hplain u (List.mem_cons_of_mem _ hu)
    have ht := hplain t List.mem_cons_self
    cases ts with
    | nil => simpa using ht
    | cons u us =>
      intro c hc
      rw [List.map_cons, List.map_cons, List.intercalate_cons_cons, List.mem_append,
        List.mem_append] at hc
      obtain (hc | hc) | hc := hc
      · exact ht c hc
      · have hbetween : ∀ c ∈ [',', ' '], c ≠ '<' ∧ c ≠ '>' := by simp
        exact hbetween c hc
      · exact hothers c (by rwa [List.map_cons])

/-- The type parameters and their brackets, before the parameters. -/
theorem typeParamsText_eq {ts : List String} (h : ∀ t ∈ ts, IsPlainText t) :
    ∃ text, Enclosed typeStops 0 text ∧ ∀ rest, typeParamsText ts rest = text ++ '(' :: rest := by
  cases ts with
  | nil => exact ⟨[], rfl, fun _ => rfl⟩
  | cons t ts =>
    refine ⟨'<' :: ([',', ' '].intercalate ((t :: ts).map String.toList) ++ ['>']),
      .bracketed (by decide) (ne_bracket_of_mem h), fun rest => ?_⟩
    rw [typeParamsText, ← intercalate_eq_listed]
    simp

/-! ### Display names -/

namespace Signature

/-- The pieces of the display name can be told apart: containers, the name and type parameters are
plain, and types are written as types. -/
structure Readable (s : Signature) : Prop where
  containers : ∀ c ∈ s.containers, IsPlainText c
  name : IsPlainText s.name
  typeParams : ∀ t ∈ s.typeParams, IsPlainText t
  params : ∀ p ∈ s.params, IsTypeText p.type
  returns : IsTypeText s.returns

/-- The display name without the return type. -/
def bareText (s : Signature) : List Char :=
  dotted s.containers ++ (s.name.toList ++ typeParamsText s.typeParams (paramsText s.params []))

theorem toList_displayName (s : Signature) :
    s.displayName.toList = s.displayReturn.toList ++ s.bareText := by
  have hcontainers : s.displayContainers.toList = dotted s.containers := by
    unfold displayContainers dotted
    rw [String.toList_join, List.flatMap_map]
    simp
  have hparams : s.displayParams.toList = '(' :: paramsText s.params [] := by
    unfold displayParams paramsText
    simp [List.map_map, Function.comp_def]
  have htypeParams : s.displayTypeParams.toList ++ '(' :: paramsText s.params [] =
      typeParamsText s.typeParams (paramsText s.params []) := by
    unfold displayTypeParams
    cases s.typeParams with
    | nil => rfl
    | cons t ts =>
      rw [typeParamsText, ← intercalate_eq_listed]
      simp
  unfold displayName bareText
  simp only [String.toList_append, List.append_assoc, hcontainers, hparams, htypeParams]

variable {s s' : Signature}

theorem bareText_inj (h : s.Readable) (h' : s'.Readable) (heq : s.bareText = s'.bareText) :
    s.containers = s'.containers ∧ s.name = s'.name ∧ s.typeParams = s'.typeParams ∧
      s.params = s'.params := by
  unfold bareText at heq
  obtain ⟨x, hx, cs, hcs⟩ := typeParamsText_head s.typeParams (paramsText s.params [])
  obtain ⟨y, hy, ds, hds⟩ := typeParamsText_head s'.typeParams (paramsText s'.params [])
  rw [hcs, hds] at heq
  obtain ⟨hcontainers, hname, rfl, rfl⟩ :=
    dotted_inj h.name h'.name hx hy h.containers h'.containers heq
  obtain ⟨htypeParams, hrest⟩ :=
    typeParamsText_inj h.typeParams h'.typeParams (hcs.trans hds.symm)
  obtain ⟨hparams, -⟩ := paramsText_inj h.params h'.params hrest
  exact ⟨hcontainers, hname, htypeParams, hparams⟩

/-- Up to the parameters, each stop is inside brackets. -/
theorem bareText_head (h : s.Readable) :
    ∃ head, Enclosed typeStops 0 head ∧ s.bareText = head ++ '(' :: paramsText s.params [] := by
  obtain ⟨text, htext, htypeParams⟩ := typeParamsText_eq h.typeParams
  have hname : Enclosed typeStops 0 s.name.toList := h.name.enclosed_type
  refine ⟨dotted s.containers ++ (s.name.toList ++ text),
    (enclosed_dotted h.containers).append (hname.append htext), ?_⟩
  unfold bareText
  rw [htypeParams]
  simp only [List.append_assoc]

/-- A return type in front ends at a space, and without one the first stop is a parenthesis. -/
theorem returns_append_ne (h : s.Readable) (h' : s'.Readable) :
    s.returns.toList ++ ' ' :: s.bareText ≠ s'.bareText := by
  intro heq
  obtain ⟨head, hhead, hbare⟩ := bareText_head h'
  rw [hbare] at heq
  obtain ⟨-, hstop, -⟩ := h.returns.enclosed.append_cons_inj hhead (by decide) (by decide) heq
  exact absurd hstop (by decide)

/-- **Display names can be read back.** Two methods have the same display name exactly when they
agree on containers, name, type parameters and parameters, and on whether they are user-defined
operators, and as such have the same return type. -/
theorem displayName_eq_iff (h : s.Readable) (h' : s'.Readable) :
    s.displayName = s'.displayName ↔
      s.containers = s'.containers ∧ s.name = s'.name ∧ s.typeParams = s'.typeParams ∧
        s.params = s'.params ∧ (s.kind = .userOperator ↔ s'.kind = .userOperator) ∧
          (s.kind = .userOperator → s.returns = s'.returns) := by
  constructor
  · intro heq
    have htext := congrArg String.toList heq
    rw [toList_displayName, toList_displayName] at htext
    unfold displayReturn at htext
    by_cases hk : s.kind = .userOperator
    · by_cases hk' : s'.kind = .userOperator
      · have htext : s.returns.toList ++ ' ' :: s.bareText =
            s'.returns.toList ++ ' ' :: s'.bareText := by
          simpa [hk, hk'] using htext
        have hspace : ' ' ∈ typeStops := by decide
        obtain ⟨hreturns, -, hbare⟩ := h.returns.append_cons_inj h'.returns hspace hspace htext
        obtain ⟨hcontainers, hname, htypeParams, hparams⟩ := bareText_inj h h' hbare
        exact ⟨hcontainers, hname, htypeParams, hparams, by simp [hk, hk'], fun _ => hreturns⟩
      · have htext : s.returns.toList ++ ' ' :: s.bareText = s'.bareText := by
          simpa [hk, hk'] using htext
        exact absurd htext (returns_append_ne h h')
    · by_cases hk' : s'.kind = .userOperator
      · have htext : s'.returns.toList ++ ' ' :: s'.bareText = s.bareText := by
          simpa [hk, hk'] using htext.symm
        exact absurd htext (returns_append_ne h' h)
      · have hbare : s.bareText = s'.bareText := by simpa [hk, hk'] using htext
        obtain ⟨hcontainers, hname, htypeParams, hparams⟩ := bareText_inj h h' hbare
        exact ⟨hcontainers, hname, htypeParams, hparams, by simp [hk, hk'],
          fun hk => absurd hk ‹_›⟩
  · rintro ⟨hcontainers, hname, htypeParams, hparams, hkind, hreturns⟩
    have hret : s.displayReturn = s'.displayReturn := by
      unfold displayReturn
      by_cases hk : s.kind = .userOperator
      · rw [if_pos hk, if_pos (hkind.mp hk), hreturns hk]
      · rw [if_neg hk, if_neg fun hk' => hk (hkind.mpr hk')]
    unfold displayName displayContainers displayTypeParams displayParams
    rw [hret, hcontainers, hname, htypeParams, hparams]

/-- A method whose parameter types have separators of their own. -/
def sample : Signature where
  entity := 1
  containers := ["Store", "Index"]
  name := "Find"
  typeParams := ["K", "V"]
  params := [⟨"Map<K, List<(int, V)>>", .ref⟩, ⟨"K", .value⟩]
  returns := "Map<K, V>"
  kind := .ordinary

/-- An overload of the sample, with its first parameter passed by value. -/
def sampleOverload : Signature :=
  { sample with params := [⟨"Map<K, List<(int, V)>>", .value⟩, ⟨"K", .value⟩] }

theorem readable_sample : sample.Readable :=
  ⟨by decide, by decide, by decide, by decide, by decide⟩

theorem readable_sampleOverload : sampleOverload.Readable :=
  ⟨by decide, by decide, by decide, by decide, by decide⟩

theorem displayName_ne_overload : sample.Readable ∧ sampleOverload.Readable ∧
    sample.displayName ≠ sampleOverload.displayName := by
  refine ⟨readable_sample, readable_sampleOverload, fun h => ?_⟩
  have hagree := (displayName_eq_iff readable_sample readable_sampleOverload).mp h
  have hparams : sample.params = sampleOverload.params := hagree.2.2.2.1
  exact absurd hparams (by decide)

end Signature

end Emission
end Deferral
