/-
# The history of a slot

A slot is offered objects, new ones and ones that were offered before; it is read, and it is
cleared. What it holds is what was offered first since it was cleared last, and each use is answered
by that. The books are kept over the whole history: each object that was ever offered has won, or it
was dropped and counted, and clearing the slot takes nothing off the count.

Key definitions: `firstSince`, `Slot.Event`, `Slot.Step`, `Slot.Run`, `Slot.Accounts`.
Key theorems: `Slot.Event.Agrees.of_step`, `Slot.stored_step`, `Slot.balanced_step`,
`Slot.run_accounts`, `Slot.perform_run`.
-/
import Deferral.WriteOnce.Holder

namespace Deferral

/-! ### What came first -/

section

variable {ε β : Type} {stop : ε → Bool} {find : ε → Option β} {e : ε} {past : List ε} {b : β}

/-- What is found first in a history since it was last stopped. The latest event comes first. -/
def firstSince (stop : ε → Bool) (find : ε → Option β) (past : List ε) : Option β :=
  ((past.takeWhile fun e => !stop e).filterMap find).getLast?

theorem firstSince_stop (h : stop e = true) : firstSince stop find (e :: past) = none := by
  simp [firstSince, h]

theorem firstSince_quiet (hf : find e = none) (h : stop e = false) :
    firstSince stop find (e :: past) = firstSince stop find past := by
  simp [firstSince, h, hf]

/-- What is found is the first unless something was found before. -/
theorem firstSince_found (hf : find e = some b) (h : stop e = false) :
    firstSince stop find (e :: past) = some ((firstSince stop find past).getD b) := by
  simp [firstSince, h, hf, List.getLast?_cons]

theorem firstSince_eq_none_iff :
    firstSince stop find past = none ↔ ∀ e ∈ past.takeWhile fun e => !stop e, find e = none := by
  simp [firstSince]

end

namespace Slot

variable {α : Type}

/-! ### Uses of a slot -/

/-- What is done with a slot, and what is answered. -/
inductive Event (α : Type) where
  /-- An object is offered; the answer is the object that is held, and whether the offer won. -/
  | offer (o held : Shared α) (won : Bool)
  | get (o : Option (Shared α))
  | isFilled (b : Bool)
  | clear (o : Option (Shared α))

/-- One use of a slot. -/
inductive Step (s : WriteOnce α) : Event α → WriteOnce α → Prop where
  | offer (o : Shared α) : Step s (.offer o (s.offer o).1.1 (s.offer o).1.2) (s.offer o).2
  | get : Step s (.get s.stored) s
  | isFilled : Step s (.isFilled s.isFilled) s
  | clear : Step s (.clear s.clear.1) s.clear.2

/-- From one slot to another, by uses of which the latest comes first. -/
inductive Run (s : WriteOnce α) : List (Event α) → WriteOnce α → Prop where
  | refl : Run s [] s
  | step {past : List (Event α)} {s' s'' : WriteOnce α} {e : Event α} (h : Run s past s')
      (hs : Step s' e s'') : Run s (e :: past) s''

namespace Event

/-- The object that is offered, if one is. -/
def offered? : Event α → Option (Shared α)
  | .offer o _ _ => some o
  | _ => none

def isClear : Event α → Bool
  | .clear _ => true
  | _ => false

/-- An object is offered, and the offer wins. -/
def isWin : Event α → Bool
  | .offer _ _ won => won
  | _ => false

end Event

/-- The uses since the slot was cleared. -/
def sinceClear (past : List (Event α)) : List (Event α) := past.takeWhile fun e => !e.isClear

/-- The object that was offered first since the slot was cleared. -/
def firstOffered? (past : List (Event α)) : Option (Shared α) :=
  firstSince Event.isClear Event.offered? past

/-- The number of objects that were ever offered. -/
def offers (past : List (Event α)) : Nat := past.countP fun e => e.offered?.isSome

/-- The number of offers that have ever won. -/
def wins (past : List (Event α)) : Nat := past.countP Event.isWin

/-- The answer of a use is what it should be after the uses before it. -/
def Event.Agrees (past : List (Event α)) : Event α → Prop
  | .offer o held won =>
    firstOffered? (.offer o held won :: past) = some held ∧
      (won = true ↔ ∀ e ∈ sinceClear past, e.offered? = none)
  | .get o => o = firstOffered? past
  | .isFilled b => b = (firstOffered? past).isSome
  | .clear o => o = firstOffered? past

/-! ### Steps and runs -/

section

variable {s s' s'' : WriteOnce α} {e : Event α} {past future : List (Event α)}

theorem firstOffered?_eq_none_iff :
    firstOffered? past = none ↔ ∀ e ∈ sinceClear past, e.offered? = none :=
  firstSince_eq_none_iff

theorem firstOffered?_offer (o held : Shared α) (won : Bool) :
    firstOffered? (.offer o held won :: past) = some ((firstOffered? past).getD o) :=
  firstSince_found rfl rfl

theorem offers_offer (o held : Shared α) (won : Bool) :
    offers (.offer o held won :: past) = offers past + 1 :=
  List.countP_cons_of_pos rfl

theorem wins_offer (o held : Shared α) (won : Bool) :
    wins (.offer o held won :: past) = wins past + won.toNat := by
  cases won with
  | true => exact List.countP_cons_of_pos rfl
  | false => exact List.countP_cons_of_neg nofun

/-- Where the slot holds what was offered first, a use is answered as it should be. -/
theorem Event.Agrees.of_step (h : s.stored = firstOffered? past) (hs : Step s e s') :
    e.Agrees past := by
  cases hs with
  | offer o =>
    refine ⟨?_, ?_⟩
    · rw [firstOffered?_offer, s.offer_answer, h]
    · rw [s.offer_won_iff, h, firstOffered?_eq_none_iff]
  | get => exact h
  | isFilled => exact congrArg Option.isSome h
  | clear => exact h

/-- And after the use it holds what was offered first then. -/
theorem stored_step (h : s.stored = firstOffered? past) (hs : Step s e s') :
    s'.stored = firstOffered? (e :: past) := by
  cases hs with
  | offer o =>
    have hheld : s.stored.getD o = (firstOffered? past).getD o := congrArg (·.getD o) h
    rw [firstOffered?_offer, s.stored_offer, s.offer_answer, hheld]
  | get => exact h.trans (firstSince_quiet rfl rfl).symm
  | isFilled => exact h.trans (firstSince_quiet rfl rfl).symm
  | clear => exact (firstSince_stop rfl).symm

/-- An object that is offered wins or is dropped, and no other use touches the books. -/
theorem balanced_step (h : s.dropped + wins past = offers past) (hs : Step s e s') :
    s'.dropped + wins (e :: past) = offers (e :: past) := by
  cases hs with
  | offer o =>
    have hdropped := s.dropped_offer o
    rw [wins_offer, offers_offer]
    omega
  | get => exact h
  | isFilled => exact h
  | clear => exact h

theorem dropped_step (hs : Step s e s') : s.dropped ≤ s'.dropped := by
  cases hs with
  | offer o =>
    have hdropped := s.dropped_offer o
    have hwon := Bool.toNat_le (s.offer o).1.2
    omega
  | get => exact Nat.le_refl _
  | isFilled => exact Nat.le_refl _
  | clear => exact Nat.le_refl _

theorem Run.trans (h : Run s past s') (h' : Run s' future s'') : Run s (future ++ past) s'' := by
  induction h' with
  | refl => exact h
  | step _ hs ih => exact ih.step hs

theorem dropped_run (h : Run s past s') : s.dropped ≤ s'.dropped := by
  induction h with
  | refl => exact Nat.le_refl _
  | step _ hs ih => exact Nat.le_trans ih (dropped_step hs)

theorem stored_run (h : Run .empty past s) : s.stored = firstOffered? past := by
  induction h with
  | refl => rfl
  | step _ hs ih => exact stored_step ih hs

theorem balanced_run (h : Run .empty past s) : s.dropped + wins past = offers past := by
  induction h with
  | refl => rfl
  | step _ hs ih => exact balanced_step ih hs

/-- Each use of a run was answered as it should be after the uses before it. -/
theorem agrees_run (h : Run .empty past s) {later earlier : List (Event α)}
    (hpast : past = later ++ e :: earlier) : e.Agrees earlier := by
  induction h generalizing later with
  | refl => simp at hpast
  | @step past s' s'' e' hr hs ih =>
    cases later with
    | nil =>
      obtain ⟨rfl, rfl⟩ := List.cons.inj hpast
      exact .of_step (stored_run hr) hs
    | cons e'' later => exact ih (List.cons.inj hpast).2

end

/-! ### The account of a history -/

/-- What is true of a slot after its uses, and whatever comes after them. -/
structure Accounts (past : List (Event α)) (s : WriteOnce α) : Prop where
  /-- It holds what was offered first since it was cleared, if something was. -/
  stored : s.stored = firstOffered? past
  /-- It is filled exactly if something is read from it. -/
  filled : s.isFilled = true ↔ ∃ o, s.stored = some o
  /-- Each use was answered by what had been offered before it. -/
  answers : ∀ later e earlier, past = later ++ e :: earlier → e.Agrees earlier
  /-- Each object that was ever offered has won or was dropped. -/
  balanced : s.dropped + wins past = offers past
  /-- The slot is empty once it is cleared, and the count of what was dropped stays. -/
  cleared : ∀ o s', Step s (.clear o) s' → s' = ⟨none, s.dropped⟩
  /-- The count never falls. -/
  ascends : ∀ future s', Run s future s' → s.dropped ≤ s'.dropped

/-- **The account of a slot.** Whatever is offered to a slot, the same objects again and again or
new ones, and however often it is read and cleared in between, it holds what was offered first since
it was cleared, answers each offer with that, lets just this first one win, and has dropped and
counted all others. -/
theorem run_accounts {past : List (Event α)} {s : WriteOnce α} (h : Run .empty past s) :
    Accounts past s where
  stored := stored_run h
  filled := Option.isSome_iff_exists
  answers _ _ _ hpast := agrees_run h hpast
  balanced := balanced_run h
  cleared o s' hs := by
    cases hs
    rfl
  ascends _ _ hr := dropped_run hr

/-- Two objects are offered, the second one first and again after the other one, and both again
after the slot has been cleared, and once more after it has been cleared twice. -/
theorem accounts_offered_again : ∃ (past : List (Event Nat)) (s : WriteOnce Nat),
    Run .empty past s ∧ Accounts past s ∧ offers past = 6 ∧ wins past = 3 ∧
      s = ⟨some ⟨1, 8⟩, 3⟩ := by
  let a : Shared Nat := ⟨0, 7⟩
  let b : Shared Nat := ⟨1, 8⟩
  have h₁ : Run (.empty : WriteOnce Nat) _ _ := .step .refl (.offer b)
  have h₂ := ((h₁.step (.offer a)).step (.offer b)).step .get
  have h₃ := ((h₂.step .clear).step (.offer a)).step (.offer b)
  have h₄ := ((h₃.step .clear).step .isFilled).step .clear
  have h₅ := h₄.step (.offer b)
  exact ⟨_, _, h₅, run_accounts h₅, rfl, rfl, rfl⟩

/-! ### Holders -/

/-- What the answer of a step of a holder tells of the uses of its slot, the latest first. -/
inductive Tells : WriteOnce.Step α → WriteOnce.Answer α → List (Event α) → Prop where
  | offer {v : α} {o held : Shared α} {won : Bool} (value : o.value = v) :
      Tells (.offer v) (.offered held won) [.offer o held won]
  | offerHeld {number : Nat} {v : α} {o held : Shared α} {won : Bool} :
      Tells (.offerHeld number v) (.offeredHeld held won (held.key == o.key)) [.offer o held won]
  | get {o : Option (Shared α)} : Tells .get (.object o) [.get o]
  | clear {o : Option (Shared α)} : Tells .clear (.object o) [.clear o]
  | describe {s : String} : Tells .describe (.text s) []
  | race {threads : Nat} {v : α} {o : Option (Shared α)} {past : List (Event α)}
      (offered : offers past = threads) :
      Tells (.race threads v) (.race (wins past) (o.map (·.value))) (.get o :: past)

section

open WriteOnce

variable {h : Holder α}

theorem offerMany_run (v : α) : ∀ (n : Nat) (h : Holder α), ∃ past,
    Run h.slot past (Holder.offerMany v n h).2.slot ∧ offers past = n ∧
      wins past = (Holder.offerMany v n h).1
  | 0, h => ⟨[], .refl, rfl, rfl⟩
  | n + 1, h => by
    obtain ⟨past, hr, hoffers, hwins⟩ := offerMany_run v n (h.offerNew v).2
    have hfirst : Run h.slot [.offer ⟨h.nextKey, v⟩ (h.offerNew v).1.1 (h.offerNew v).1.2]
        (h.offerNew v).2.slot := .step .refl (.offer _)
    refine ⟨_, hfirst.trans hr, ?_, ?_⟩
    · have hadd : offers (past ++ [Event.offer ⟨h.nextKey, v⟩ (h.offerNew v).1.1
          (h.offerNew v).1.2]) = offers past + 1 := by
        simp [offers, List.countP_append, Event.offered?]
      rw [hadd, hoffers]
    · have hadd : wins (past ++ [Event.offer ⟨h.nextKey, v⟩ (h.offerNew v).1.1
          (h.offerNew v).1.2]) = wins past + (h.offerNew v).1.2.toNat := by
        unfold wins
        rw [List.countP_append]
        exact congrArg (past.countP Event.isWin + ·) ((wins_offer _ _ _).trans (Nat.zero_add _))
      rw [hadd, hwins]
      rfl

/-- A step of a holder is made of uses of its slot, and is answered as they are. -/
theorem perform_run (value : α → String) (h : Holder α) (step : WriteOnce.Step α) :
    ∃ past, Run h.slot past (h.perform value step).2.slot ∧
      Tells step (h.perform value step).1 past := by
  cases step with
  | offer v => exact ⟨_, .step .refl (.offer _), .offer rfl⟩
  | offerHeld number v =>
    cases hheld : h.held[number]? with
    | some o =>
      simp only [Holder.perform, hheld]
      exact ⟨_, .step .refl (.offer o), .offerHeld⟩
    | none =>
      simp only [Holder.perform, hheld]
      exact ⟨_, .step .refl (.offer _), .offerHeld (o := ⟨h.nextKey, v⟩)⟩
  | get => exact ⟨_, .step .refl .get, .get⟩
  | clear => exact ⟨_, .step .refl .clear, .clear⟩
  | describe => exact ⟨_, .refl, .describe⟩
  | race threads v =>
    obtain ⟨past, hr, hoffers, hwins⟩ := offerMany_run v threads h
    refine ⟨_, hr.step .get, ?_⟩
    unfold Holder.perform
    dsimp only
    rw [← hwins]
    exact .race hoffers

/-- So the slot of a holder has a history, whatever its steps. -/
theorem holder_run (value : α → String) (steps : List (WriteOnce.Step α)) : ∃ past,
    Run .empty past (steps.foldl (fun h step => (h.perform value step).2) Holder.empty).slot := by
  have hall : ∀ (steps : List (WriteOnce.Step α)) (h : Holder α), ∃ past,
      Run h.slot past (steps.foldl (fun h step => (h.perform value step).2) h).slot := by
    intro steps
    induction steps with
    | nil => exact fun h => ⟨[], .refl⟩
    | cons step steps ih =>
      intro h
      obtain ⟨past, hr, -⟩ := perform_run value h step
      obtain ⟨later, hr'⟩ := ih (h.perform value step).2
      exact ⟨later ++ past, hr.trans hr'⟩
  exact hall steps .empty

end

end Slot
end Deferral
