/-
# Memoization under any interleaving

Whatever the order of the steps, the objects that slots and calls hold are apart from one another,
but for the one that stands for nothing to report, and the books of each slot balance: one of the
objects that were offered is kept, and the others are dropped. So the first result that is offered
is every answer from then on. A session takes these steps, one call after the other.

Key definitions: `Memo.Objects`, `Memo.Account`, `Memo.Memoizes`.
Key theorems: `Memo.objects_step`, `Memo.account_step`, `Memo.run_memoizes`, `Memo.resolve?_steps`.
-/
import Deferral.Proofs.Conduct
import Deferral.Proofs.Memo

namespace Deferral
namespace Memo

open Session

/-! ### Objects -/

/-- An object made so far: the one for nothing to report, or a report with a key of its own. -/
def Memory.Made (m : Memory) (o : Shared Finding) : Prop :=
  o = voidObject ∨ (∃ r, o.value = .report r) ∧ 0 < o.key ∧ o.key < m.nextKey

/-- Who holds an object: a slot, or a call that is about to offer it. -/
inductive Holder where
  | slot (d : Nat)
  | call (d k : Nat)

/-- The holder has this object. -/
def Memory.Holds (m : Memory) (o : Shared Finding) : Holder → Prop
  | .slot d => (m.slots d).stored = some o
  | .call d k => m.calls d k = .offering o

/-- What holds of the objects in a memory. -/
structure Objects (m : Memory) : Prop where
  keyed : 0 < m.nextKey
  made : ∀ o a, m.Holds o a → m.Made o
  /-- A report has one holder. -/
  apart : ∀ o o' a a', m.Holds o a → m.Holds o' a' → o.key = o'.key → 0 < o.key → a = a'

theorem objects_initial : Objects .initial where
  keyed := Nat.one_pos
  made o a h := by cases a <;> cases h
  apart o o' a a' h := by cases a <;> cases h

section

variable {m m' : Memory} {e : Event} {past : List Event} {d k : Nat} {ph : Phase}
variable {o : Shared Finding}

theorem Memory.Made.eq_of_void (h : m.Made o) (hv : o.value = .void) : o = voidObject := by
  rcases h with h | ⟨⟨r, hr⟩, -⟩
  · exact h
  · rw [hr] at hv
    cases hv

theorem Memory.Made.void_of_key (h : m.Made o) (hk : o.key = 0) : o.value = .void := by
  rcases h with rfl | ⟨-, hpos, -⟩
  · rfl
  · omega

theorem le_made_nextKey (m : Memory) (f : Finding) : m.nextKey ≤ (m.made f).nextKey := by
  cases f with
  | void => exact Nat.le_refl m.nextKey
  | report r => exact Nat.le_succ m.nextKey

theorem Memory.Made.made (h : m.Made o) (f : Finding) : (m.made f).Made o := by
  rcases h with h | ⟨hr, hpos, hlt⟩
  · exact .inl h
  · have hle := le_made_nextKey m f
    exact .inr ⟨hr, hpos, by omega⟩

/-- Where nobody gets an object, all that may change is that the next key grows. -/
theorem Objects.quiet (h : Objects m) (hkey : m.nextKey ≤ m'.nextKey)
    (hholds : ∀ o a, m'.Holds o a → m.Holds o a) : Objects m' where
  keyed := by
    have hpos := h.keyed
    omega
  made o a ho := by
    rcases h.made o a (hholds o a ho) with hv | ⟨hr, hpos, hlt⟩
    · exact .inl hv
    · exact .inr ⟨hr, hpos, by omega⟩
  apart o o' a a' ho ho' := h.apart o o' a a' (hholds o a ho) (hholds o' a' ho')

theorem Objects.setCall (h : Objects m) (hph : ∀ o, ph ≠ .offering o) :
    Objects (m.setCall d k ph) := by
  refine h.quiet (Nat.le_refl _) fun o a ho => ?_
  cases a with
  | slot d' => exact ho
  | call d' k' =>
    exact setCall_of (P := fun ph => ph = .offering o → m.calls d' k' = .offering o)
      (fun _ _ h => absurd h (hph o)) id ho

/-- The next object is unlike all that are held, unless it is the one for nothing to report. -/
theorem Objects.key_of_next (h : Objects m) {a : Holder} (ho : m.Holds o a) (f : Finding)
    (hk : o.key = (objectAt m.nextKey f).1.key) : o.key = 0 := by
  cases f with
  | void => exact hk
  | report r =>
    have hnext : o.key = m.nextKey := hk
    rcases h.made o a ho with rfl | ⟨-, -, hlt⟩
    · rfl
    · omega

/-- A computation that has found something makes a new object, which nobody else holds. -/
theorem Objects.result (h : Objects m) (f : Finding) :
    Objects ((m.made f).setCall d k (.offering (objectAt m.nextKey f).1)) := by
  have hholds : ∀ o a,
      ((m.made f).setCall d k (.offering (objectAt m.nextKey f).1)).Holds o a →
        m.Holds o a ∨ (a = .call d k ∧ o = (objectAt m.nextKey f).1) := by
    intro o a ho
    cases a with
    | slot d' => exact .inl ho
    | call d' k' =>
      refine setCall_of (P := fun ph => ph = .offering o → m.calls d' k' = .offering o ∨
        (Holder.call d' k' = .call d k ∧ o = (objectAt m.nextKey f).1)) ?_ .inl ho
      rintro rfl rfl ho
      cases ho
      exact .inr ⟨rfl, rfl⟩
  refine
    { keyed := ?_
      made := fun o a ho => ?_
      apart := fun o o' a a' ho ho' hkey hpos => ?_ }
  · have hpos := h.keyed
    have hle := le_made_nextKey m f
    show 0 < (m.made f).nextKey
    omega
  · rcases hholds o a ho with ho | ⟨-, rfl⟩
    · exact (h.made o a ho).made f
    · cases f with
      | void => exact .inl rfl
      | report r => exact .inr ⟨⟨r, rfl⟩, h.keyed, Nat.lt_succ_self m.nextKey⟩
  · rcases hholds o a ho with ho | ⟨rfl, rfl⟩
    · rcases hholds o' a' ho' with ho' | ⟨rfl, rfl⟩
      · exact h.apart o o' a a' ho ho' hkey hpos
      · have hzero := h.key_of_next ho f hkey
        omega
    · rcases hholds o' a' ho' with ho' | ⟨rfl, rfl⟩
      · have hzero := h.key_of_next ho' f hkey.symm
        omega
      · rfl

/-- What is held after a publication was held before, by the same holder or, if the slot has it
now, by the call, which holds nothing any more. -/
theorem holds_publish (hc : m.calls d k = .offering o) {o' : Shared Finding} {a : Holder}
    (h : (m.publish d k o).Holds o' a) :
    a ≠ .call d k ∧ ∃ a₀, m.Holds o' a₀ ∧ (a₀ = a ∨ (a₀ = .call d k ∧ a = .slot d)) := by
  cases a with
  | slot d' =>
    refine ⟨by simp, ?_⟩
    by_cases hd : d' = d
    · subst hd
      have h : ((m.publish d' k o).slots d').stored = some o' := h
      rw [publish_slots_self] at h
      cases hs : (m.slots d').stored with
      | none =>
        rw [WriteOnce.stored_offer_of_empty hs] at h
        cases h
        exact ⟨.call d' k, hc, .inr ⟨rfl, rfl⟩⟩
      | some held =>
        rw [WriteOnce.stored_offer_of_stored hs] at h
        exact ⟨.slot d', hs.trans h, .inl rfl⟩
    · have h : ((m.publish d k o).slots d').stored = some o' := h
      rw [publish_slots_ne hd] at h
      exact ⟨.slot d', h, .inl rfl⟩
  | call d' k' =>
    have h : (m.publish d k o).calls d' k' = .offering o' := h
    by_cases hd : d' = d ∧ k' = k
    · obtain ⟨rfl, rfl⟩ := hd
      rw [publish_self] at h
      cases h
    · rw [publish_ne hd] at h
      refine ⟨fun heq => hd ?_, .call d' k', h, .inl rfl⟩
      cases heq
      exact ⟨rfl, rfl⟩

theorem Objects.publish (h : Objects m) (hc : m.calls d k = .offering o) :
    Objects (m.publish d k o) where
  keyed := h.keyed
  made o' a ho := by
    obtain ⟨-, a₀, ho, -⟩ := holds_publish hc ho
    exact h.made o' a₀ ho
  apart o₁ o₂ a₁ a₂ ho₁ ho₂ hkey hpos := by
    obtain ⟨hne₁, b₁, hb₁, h₁⟩ := holds_publish hc ho₁
    obtain ⟨hne₂, b₂, hb₂, h₂⟩ := holds_publish hc ho₂
    have hb : b₁ = b₂ := h.apart o₁ o₂ b₁ b₂ hb₁ hb₂ hkey hpos
    rcases h₁ with rfl | ⟨rfl, rfl⟩
    · rcases h₂ with rfl | ⟨rfl, rfl⟩
      · exact hb
      · exact absurd hb hne₁
    · rcases h₂ with rfl | ⟨rfl, rfl⟩
      · exact absurd hb.symm hne₂
      · rfl

theorem objects_step (h : Objects m) (hs : Step m e m') : Objects m' := by
  cases hs with
  | enter => exact h.setCall (by simp)
  | read => exact h.setCall (by simp)
  | compute => exact h.setCall (by simp)
  | undecided => exact h.setCall (by simp)
  | failed => exact h.setCall (by simp)
  | result => exact h.result _
  | publish hc => exact h.publish hc
  | @elsewhere f => exact h.quiet (le_made_nextKey m f) fun o a ho => by cases a <;> exact ho

theorem objects_run (h : Run .initial past m) : Objects m := by
  induction h with
  | refl => exact objects_initial
  | step _ hs ih => exact objects_step ih hs

/-- Two slots that hold one object hold nothing to report. -/
theorem Objects.key_of_shared (h : Objects m) {d' : Nat} {o' : Shared Finding} (hd : d ≠ d')
    (hs : (m.slots d).stored = some o) (hs' : (m.slots d').stored = some o')
    (hkey : o.key = o'.key) : o.key = 0 := by
  rcases Nat.eq_zero_or_pos o.key with hzero | hpos
  · exact hzero
  · have hsame : Holder.slot d = .slot d' := h.apart o o' _ _ hs hs' hkey hpos
    exact absurd (Holder.slot.inj hsame) hd

end

/-! ### The books of each slot -/

/-- What the calls have to do with the slots. -/
structure Account (past : List Event) (m : Memory) : Prop where
  answers : ∀ d k o, (m.calls d k).answer? = some (some o) → (m.slots d).stored = some o
  untouched : ∀ d, (m.slots d).stored = none → offers d past = 0 ∧ (m.slots d).dropped = 0
  /-- One of the objects that were offered is kept, and the others are dropped. -/
  balanced : ∀ d o, (m.slots d).stored = some o → offers d past = (m.slots d).dropped + 1
  offered : ∀ d k, .publish d k ∈ past → ∃ o won, m.calls d k = .published o won
  winner : ∀ d o, (m.slots d).stored = some o → ∃ k, m.calls d k = .published o true
  winners : ∀ d k k' o o', m.calls d k = .published o true → m.calls d k' = .published o' true →
    k = k'

theorem account_initial : Account [] .initial where
  answers d k o h := by cases h
  untouched d _ := ⟨rfl, rfl⟩
  balanced d o h := by cases h
  offered d k h := by cases h
  winner d o h := by cases h
  winners d k k' o o' h := by cases h

section

variable {m m' : Memory} {e : Event} {past : List Event} {d k : Nat} {ph : Phase}
variable {o : Shared Finding}

theorem offers_cons_of_ne (h : ∀ d k, e ≠ .publish d k) (d : Nat) :
    offers d (e :: past) = offers d past := by
  cases e with
  | publish d' k' => exact absurd rfl (h d' k')
  | enter d' k' => rfl
  | look d' k' => rfl
  | finish d' k' outcome => rfl
  | elsewhere f => rfl

theorem offers_publish_self : offers d (.publish d k :: past) = offers d past + 1 := by
  simp [offers]

theorem offers_publish_ne {d' : Nat} (h : d' ≠ d) :
    offers d' (.publish d k :: past) = offers d' past := by
  simp [offers, Ne.symm h]

/-- Where nothing is published, it is enough that new answers are what the slots hold. -/
theorem Account.quiet (h : Account past m) (he : ∀ d k, e ≠ .publish d k)
    (hslots : m'.slots = m.slots)
    (hpublished : ∀ d k o won, m'.calls d k = .published o won ↔ m.calls d k = .published o won)
    (hanswers : ∀ d k o, (m'.calls d k).answer? = some (some o) → (m.slots d).stored = some o) :
    Account (e :: past) m' where
  answers d k o ho := by
    rw [hslots]
    exact hanswers d k o ho
  untouched d hs := by
    rw [hslots] at hs ⊢
    rw [offers_cons_of_ne he]
    exact h.untouched d hs
  balanced d o hs := by
    rw [hslots] at hs ⊢
    rw [offers_cons_of_ne he]
    exact h.balanced d o hs
  offered d k hmem := by
    rcases List.mem_cons.mp hmem with hmem | hmem
    · exact absurd hmem.symm (he d k)
    · obtain ⟨o, won, ho⟩ := h.offered d k hmem
      exact ⟨o, won, (hpublished d k o won).mpr ho⟩
  winner d o hs := by
    rw [hslots] at hs
    obtain ⟨k, hk⟩ := h.winner d o hs
    exact ⟨k, (hpublished d k o true).mpr hk⟩
  winners d k k' o o' hk hk' :=
    h.winners d k k' o o' ((hpublished d k o true).mp hk) ((hpublished d k' o' true).mp hk')

theorem Account.setCall (h : Account past m) (he : ∀ d k, e ≠ .publish d k)
    (hbefore : ∀ o won, m.calls d k ≠ .published o won) (hph : ∀ o won, ph ≠ .published o won)
    (hanswer : ∀ o, ph.answer? = some (some o) → (m.slots d).stored = some o) :
    Account (e :: past) (m.setCall d k ph) := by
  refine h.quiet he rfl (fun d' k' o won => setCall_eq_iff (hbefore o won) (hph o won))
    fun d' k' o => ?_
  refine setCall_of (P := fun ph => ph.answer? = some (some o) → (m.slots d').stored = some o)
    (fun hd _ ho => ?_) (h.answers d' k' o)
  rw [hd]
  exact hanswer o ho

/-- Where nothing is memoized, nothing has been published. -/
theorem Account.not_published (h : Account past m) (hs : (m.slots d).stored = none) {won : Bool} :
    m.calls d k ≠ .published o won := fun hc => by
  have ho := h.answers d k o (by rw [hc]; rfl)
  rw [hs] at ho
  cases ho

/-- After a publication those have won who had won before, and this call if the slot was empty. -/
theorem publish_won_iff (hc : m.calls d k = .offering o) {d' j : Nat} {o' : Shared Finding} :
    (m.publish d k o).calls d' j = .published o' true ↔
      m.calls d' j = .published o' true ∨
        (d' = d ∧ j = k ∧ o' = o) ∧ (m.slots d).stored = none := by
  by_cases hd : d' = d ∧ j = k
  · obtain ⟨rfl, rfl⟩ := hd
    have hanswer := WriteOnce.offer_answer (m.slots d') o
    have hwon := WriteOnce.offer_won_iff (m.slots d') o
    rw [publish_self, hc, Phase.published.injEq, hwon]
    constructor
    · rintro ⟨ho, hempty⟩
      rw [hanswer, hempty, Option.getD_none] at ho
      exact .inr ⟨⟨rfl, rfl, ho.symm⟩, hempty⟩
    · rintro (hne | ⟨⟨-, -, rfl⟩, hempty⟩)
      · cases hne
      · exact ⟨by rw [hanswer, hempty, Option.getD_none], hempty⟩
  · rw [publish_ne hd]
    exact ⟨.inl, fun h => h.resolve_right fun hnew => hd ⟨hnew.1.1, hnew.1.2.1⟩⟩

/-- After a publication the slot holds what was answered, and other slots hold what they held. -/
theorem Account.publish (h : Account past m) (hc : m.calls d k = .offering o) :
    Account (.publish d k :: past) (m.publish d k o) where
  answers d' k' o' ho := by
    by_cases hd : d' = d ∧ k' = k
    · obtain ⟨rfl, rfl⟩ := hd
      rw [publish_self] at ho
      cases ho
      rw [publish_slots_self]
      exact WriteOnce.stored_offer _ o
    · rw [publish_ne hd] at ho
      exact stored_step (.publish hc) (h.answers d' k' o' ho)
  untouched d' hs := by
    by_cases hd : d' = d
    · subst hd
      rw [publish_slots_self, WriteOnce.stored_offer] at hs
      cases hs
    · rw [publish_slots_ne hd] at hs ⊢
      rw [offers_publish_ne hd]
      exact h.untouched d' hs
  balanced d' o' hs := by
    by_cases hd : d' = d
    · subst hd
      rw [offers_publish_self, publish_slots_self]
      cases hold : (m.slots d').stored with
      | none =>
        obtain ⟨hoffers, hdropped⟩ := h.untouched d' hold
        simp [WriteOnce.offer, hold, hoffers, hdropped]
      | some held => simp [WriteOnce.offer, hold, h.balanced d' held hold]
    · rw [publish_slots_ne hd] at hs ⊢
      rw [offers_publish_ne hd]
      exact h.balanced d' o' hs
  offered d' k' hmem := by
    by_cases hd : d' = d ∧ k' = k
    · obtain ⟨rfl, rfl⟩ := hd
      exact ⟨_, _, publish_self⟩
    · rw [publish_ne hd]
      rcases List.mem_cons.mp hmem with hmem | hmem
      · cases hmem
        exact absurd ⟨rfl, rfl⟩ hd
      · exact h.offered d' k' hmem
  winner d' o' hs := by
    by_cases hd : d' = d
    · subst hd
      rw [publish_slots_self] at hs
      cases hold : (m.slots d').stored with
      | none =>
        rw [WriteOnce.stored_offer_of_empty hold] at hs
        cases hs
        exact ⟨k, (publish_won_iff hc).mpr (.inr ⟨⟨rfl, rfl, rfl⟩, hold⟩)⟩
      | some held =>
        rw [WriteOnce.stored_offer_of_stored hold] at hs
        obtain ⟨j, hj⟩ := h.winner d' o' (hold.trans hs)
        exact ⟨j, (publish_won_iff hc).mpr (.inl hj)⟩
    · rw [publish_slots_ne hd] at hs
      obtain ⟨j, hj⟩ := h.winner d' o' hs
      exact ⟨j, (publish_won_iff hc).mpr (.inl hj)⟩
  winners d' j j' o₁ o₂ hj hj' := by
    rcases (publish_won_iff hc).mp hj with hwon | ⟨⟨rfl, rfl, -⟩, hempty⟩
    · rcases (publish_won_iff hc).mp hj' with hwon' | ⟨⟨rfl, -, -⟩, hempty⟩
      · exact h.winners d' j j' o₁ o₂ hwon hwon'
      · exact absurd hwon (h.not_published hempty)
    · rcases (publish_won_iff hc).mp hj' with hwon' | ⟨⟨-, rfl, -⟩, -⟩
      · exact absurd hwon' (h.not_published hempty)
      · rfl

theorem account_step (h : Account past m) (hs : Step m e m') : Account (e :: past) m' := by
  cases hs with
  | enter hc => exact h.setCall (by simp) (by simp [hc]) (by simp) fun _ ho => by cases ho
  | read hc hst =>
    refine h.setCall (by simp) (by simp [hc]) (by simp) fun o ho => ?_
    cases ho
    exact hst
  | compute hc => exact h.setCall (by simp) (by simp [hc]) (by simp) fun _ ho => by cases ho
  | undecided hc => exact h.setCall (by simp) (by simp [hc]) (by simp) fun _ ho => by cases ho
  | failed hc => exact h.setCall (by simp) (by simp [hc]) (by simp) fun _ ho => by cases ho
  | @result d k f hc =>
    have hmade : Account past (m.made f) :=
      ⟨h.answers, h.untouched, h.balanced, h.offered, h.winner, h.winners⟩
    have hc : (m.made f).calls d k = .computing := hc
    exact hmade.setCall (by simp) (by simp [hc]) (by simp) fun _ ho => by cases ho
  | publish hc => exact h.publish hc
  | elsewhere => exact h.quiet (by simp) rfl (fun _ _ _ _ => Iff.rfl) h.answers

theorem account_run (h : Run .initial past m) : Account past m := by
  induction h with
  | refl => exact account_initial
  | step _ hs ih => exact account_step ih hs

/-- A call that has not published anything has offered nothing. -/
theorem Account.not_offered (h : Account past m) (hc : ∀ o won, m.calls d k ≠ .published o won) :
    .publish d k ∉ past := fun hmem => by
  obtain ⟨o, won, ho⟩ := h.offered d k hmem
  exact hc o won ho

end

/-! ### What memoizing comes to -/

/-- What is true of the memory that some events lead to, and of all that may follow. -/
structure Memoizes (past : List Event) (m : Memory) : Prop where
  /-- A memoized result never changes. -/
  stays : ∀ d o, (m.slots d).stored = some o →
    ∀ future m', Run m future m' → (m'.slots d).stored = some o
  /-- Every result that is answered is the memoized object. -/
  answers : ∀ d k o, (m.calls d k).answer? = some (some o) → (m.slots d).stored = some o
  /-- A call that is entered when a result is memoized computes nothing. -/
  recalls : ∀ d k o, (m.slots d).stored = some o → m.calls d k = .outside →
    ∀ future m', Run m future m' → (m'.calls d k).readsOnly o
  /-- Only what is offered is memoized or dropped. -/
  others : ∀ e m', Step m e m' → (∀ d k, e ≠ .publish d k) → m'.slots = m.slots
  /-- A call that has ended does nothing more. -/
  ends : ∀ d k, (m.calls d k).ended = true →
    ∀ future m', Run m future m' → m'.calls d k = m.calls d k
  /-- What is undecided is not offered, and counts as nothing to report where an answer is due. -/
  undecided : ∀ d k, m.calls d k = .undecided →
    .publish d k ∉ past ∧ (m.calls d k).answerOrVoid? = some voidObject
  /-- What fails is not offered. -/
  failed : ∀ d k, m.calls d k = .failed →
    .publish d k ∉ past ∧ (m.calls d k).answerOrVoid? = none
  /-- One call has won, and no other. -/
  winner : ∀ d o, (m.slots d).stored = some o →
    ∃ k, m.calls d k = .published o true ∧ ∀ k' o', m.calls d k' = .published o' true → k' = k
  /-- A slot is empty until something is offered to it. -/
  empty_iff : ∀ d, (m.slots d).stored = none ↔ offers d past = 0
  /-- All but the first of the objects that were offered have been dropped. -/
  dropped : ∀ d, (m.slots d).dropped = offers d past - 1
  /-- Nothing to report is memoized as the one object for it. -/
  void : ∀ d o, (m.slots d).stored = some o → o.value = .void → o = voidObject
  /-- Two diagnostics share their object exactly when both have nothing to report. -/
  shared : ∀ d d' o o', d ≠ d' → (m.slots d).stored = some o → (m.slots d').stored = some o' →
    (o.key = o'.key ↔ o.value = .void ∧ o'.value = .void)

section

variable {m : Memory} {past : List Event} {d k : Nat} {o : Shared Finding}

/-- **Memoization under any interleaving.** -/
theorem run_memoizes (h : Run .initial past m) : Memoizes past m := by
  have hobjects := objects_run h
  have haccount := account_run h
  exact
    { stays := fun d o hst _ _ hr => stored_run hr hst
      answers := haccount.answers
      recalls := fun d k o hst hc _ _ hr => readsOnly_run hr hst (.inl hc)
      others := fun _ _ hs he => slots_step hs he
      ends := fun d k hend _ _ hr => ended_run hr hend
      undecided := fun d k hc => ⟨haccount.not_offered (by simp [hc]), by rw [hc]; rfl⟩
      failed := fun d k hc => ⟨haccount.not_offered (by simp [hc]), by rw [hc]; rfl⟩
      winner := fun d o hst => by
        obtain ⟨k, hk⟩ := haccount.winner d o hst
        exact ⟨k, hk, fun k' o' hk' => haccount.winners d k' k o' o hk' hk⟩
      empty_iff := fun d => by
        refine ⟨fun hs => (haccount.untouched d hs).1, fun hn => ?_⟩
        cases hs : (m.slots d).stored with
        | none => rfl
        | some o =>
          rw [haccount.balanced d o hs] at hn
          cases hn
      dropped := fun d => by
        cases hs : (m.slots d).stored with
        | none =>
          obtain ⟨hoffers, hdropped⟩ := haccount.untouched d hs
          rw [hoffers, hdropped]
        | some o =>
          have hbalanced : offers d past = (m.slots d).dropped + 1 := haccount.balanced d o hs
          omega
      void := fun d o hst hv => (hobjects.made o (.slot d) hst).eq_of_void hv
      shared := fun d d' o o' hd hst hst' => by
        have hm := hobjects.made o (.slot d) hst
        have hm' := hobjects.made o' (.slot d') hst'
        constructor
        · intro hkey
          have hzero := hobjects.key_of_shared hd hst hst' hkey
          exact ⟨hm.void_of_key hzero, hm'.void_of_key (hkey.symm.trans hzero)⟩
        · rintro ⟨hv, hv'⟩
          rw [hm.eq_of_void hv, hm'.eq_of_void hv'] }

/-- Two calls of a diagnostic, one while the other computes. -/
def overlapping : List Event :=
  [.publish 0 0, .finish 0 0 (.found .void), .publish 0 1,
    .finish 0 1 (.found (.report (experimentalReport ⟨0, "Old", .method⟩ .empty ⟨0, ⟨0, 1⟩⟩))),
    .look 0 1, .enter 0 1, .look 0 0, .enter 0 0]

/-- The second call wins, and what the first one has found is dropped. -/
theorem overlapping_memoizes :
    ∃ m, Run .initial overlapping m ∧ Memoizes overlapping m ∧
      m.calls 0 1 = .published
        ⟨1, .report (experimentalReport ⟨0, "Old", .method⟩ .empty ⟨0, ⟨0, 1⟩⟩)⟩ true ∧
      (m.slots 0).dropped = 1 := by
  have h₁ : Run .initial _ _ := .step .refl (.enter (d := 0) (k := 0) rfl)
  have h₂ := h₁.step (.compute (d := 0) (k := 0) rfl rfl)
  have h₃ := h₂.step (.enter (d := 0) (k := 1) rfl)
  have h₄ := h₃.step (.compute (d := 0) (k := 1) rfl rfl)
  have h₅ := h₄.step (.result (d := 0) (k := 1)
    (f := .report (experimentalReport ⟨0, "Old", .method⟩ .empty ⟨0, ⟨0, 1⟩⟩)) rfl)
  have h₆ := h₅.step (.publish (d := 0) (k := 1) rfl)
  have h₇ := h₆.step (.result (d := 0) (k := 0) (f := .void) rfl)
  have h₈ := h₇.step (.publish (d := 0) (k := 0) rfl)
  exact ⟨_, h₈, run_memoizes h₈, rfl, rfl⟩

end

/-! ### The steps of a session -/

section

variable {p : Program} {run : Runner} {at_ : Scope} {c c' : Course} {cell n : Nat}
variable {comp : Computation} {slot : WriteOnce Finding} {o : Shared Finding}

/-- The slot of the diagnostic with this number. -/
def slotOf (w : World) (cell : Nat) : WriteOnce Finding :=
  match w.cells[cell]? with
  | some (.deferred _ slot _) => slot
  | _ => .empty

/-- What a world memoizes, with calls that have come so far. -/
def memoryOf (w : World) (calls : Nat → Nat → Phase) : Memory := ⟨slotOf w, w.nextKey, calls⟩

theorem memoize_steps (hc : c.now.cells[cell]? = some (.deferred comp slot n))
    (o : Shared Finding) :
    ∃ c', memoize cell o c = .ok (slot.offer o).1 c' ∧ c'.now.nextKey = c.now.nextKey ∧
      slotOf c'.now = fun d => if d = cell then (slot.offer o).2 else slotOf c.now d := by
  refine ⟨_, memoize_of_deferred hc o, rfl, ?_⟩
  funext d
  obtain ⟨hlt, -⟩ := List.getElem?_eq_some_iff.mp hc
  by_cases hd : d = cell
  · subst hd
    simp [slotOf, Course.goOn, World.setCell, hlt]
  · simp [slotOf, Course.goOn, World.setCell, List.getElem?_set_ne (Ne.symm hd), hd]

/-- Reading a memoized result is a step of a call. -/
theorem resolve?_of_stored (hc : c.now.cells[cell]? = some (.deferred comp slot n))
    (hst : slot.stored = some o) {calls : Nat → Nat → Phase} {k : Nat}
    (hk : calls cell k = .entered) :
    resolve? p run at_ cell c = .ok (some o) c ∧
      Step (memoryOf c.now calls) (.look cell k)
        ((memoryOf c.now calls).setCall cell k (.found o)) := by
  refine ⟨?_, .read hk ?_⟩
  · rw [resolve?, Act.get_bind]
    simp only [hc, hst]
    rfl
  · simp only [memoryOf, slotOf, hc, hst]

/-- What a resolution does once it has computed a result is the last two steps of a call. -/
theorem resolve?_steps (hrun : LawfulRunner p run) (hs : c.now.Sound p)
    (ht : c.now.Hosts at_.thread) (hc : c.now.cells[cell]? = some (.deferred comp slot n))
    (hst : slot.stored = none) {f : Finding} {c₂ : Course}
    (hcomp : compute p run at_ n comp
      (c.goOn (c.now.setCell cell (.deferred comp slot (n + 1)))) = .ok (some f) c₂)
    {calls : Nat → Nat → Phase} {k : Nat} (hk : calls cell k = .computing) :
    ∃ o won c' m', resolve? p run at_ cell c = .ok (some o) c' ∧
      Run (memoryOf c₂.now calls) [.publish cell k, .finish cell k (.found f)] m' ∧
      m'.slots = slotOf c'.now ∧ m'.nextKey = c'.now.nextKey ∧
      m'.calls cell k = .published o won := by
  have h₁ := passage_count hs hc
  have h₂ := (lawful_compute hrun n comp).ok (h₁.sound hs) (h₁.hosts ht) hcomp
  obtain ⟨_, hc₂, slot', n', rfl, -⟩ := (h₁.trans h₂).later.cells cell _ hc
  obtain rfl : slot' = slotOf c₂.now cell := by simp only [slotOf, hc₂]
  obtain ⟨c₄, hmem, hkey, hslots⟩ :=
    memoize_steps (c := c₂.making f) hc₂ (objectAt c₂.now.nextKey f).1
  -- a trace of a lost race is no part of a memory
  obtain ⟨c', log, hrest, hlog⟩ := answerOffer_runs at_
    ((slotOf c₂.now cell).offer (objectAt c₂.now.nextKey f).1).1 c₄
  refine ⟨_, _, c', _, ?_, .step (.step .refl (.result hk)) (.publish setCall_self), ?_, ?_,
    publish_self⟩
  · rw [resolve?, Act.get_bind]
    simp only [hc, hst]
    rw [Act.modify_bind, Act.bind_of_ok hcomp]
    dsimp only
    rw [Act.bind_of_ok (objectFor_eq f c₂), Act.bind_of_ok hmem]
    exact hrest
  · have hnow : slotOf c'.now = slotOf c₄.now := by
      rw [hlog]
      rfl
    rw [hnow, hslots]
    rfl
  · rw [hlog]
    exact hkey.symm

end

end Memo
end Deferral
