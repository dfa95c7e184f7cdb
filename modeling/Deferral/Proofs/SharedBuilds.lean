/-
# One index between two resets

Whatever the order of the steps, all that is handed out between two resets is one index, that of the
entries which were offered first, and the books of its slot balance: each index that was offered is
kept or dropped, over all resets.

Key definitions: `Building.Waits`, `Building.Account`, `Building.Builds`.
Key theorems: `Building.account_step`, `Building.run_builds`.
-/
import Deferral.Proofs.Building
import Deferral.Proofs.SlotHistory

namespace Deferral
namespace Building

open Emission

variable {κ α : Type}

/-! ### Histories -/

section

variable {e : Event κ α} {past : List (Event κ α)}

theorem sinceReset_cons (h : e.isReset = false) :
    sinceReset (e :: past) = e :: sinceReset past := by
  simp [sinceReset, h]

theorem firstOffered?_quiet (ho : e.offered? = none) (hr : e.isReset = false) :
    firstOffered? (e :: past) = firstOffered? past :=
  firstSince_quiet ho hr

/-- What is offered is the first unless something was offered before. -/
theorem firstOffered?_offered {entries : List (κ × Option α)} (ho : e.offered? = some entries)
    (hr : e.isReset = false) :
    firstOffered? (e :: past) = some ((firstOffered? past).getD entries) :=
  firstSince_found ho hr

theorem offers_publish (k : Nat) (entries : List (κ × Option α)) (o : SharedIndex κ α)
    (won : Bool) : offers (.publish k entries o won :: past) = offers past + 1 :=
  List.countP_cons_of_pos rfl

theorem publications_publish (k : Nat) (entries : List (κ × Option α)) (o : SharedIndex κ α)
    (won : Bool) :
    publications (.publish k entries o won :: past) = publications past + won.toNat := by
  cases won with
  | true => exact List.countP_cons_of_pos rfl
  | false => exact List.countP_cons_of_neg nofun

theorem completions_finish (k : Nat) (entries : List (κ × Option α)) :
    completions (.finish k entries :: past) = completions past + 1 :=
  List.countP_cons_of_pos rfl

end

/-! ### Accounts -/

/-- The calls that are about to offer what they have built. -/
structure Waits (waiting : List Nat) (m : State κ α) : Prop where
  nodup : waiting.Nodup
  mem_iff : ∀ k, k ∈ waiting ↔ (m.calls k).isOffering = true

section

variable {m : State κ α} {waiting : List Nat} {k : Nat} {ph : Phase κ α}

theorem Waits.of_calls {m' : State κ α} (h : Waits waiting m) (hcalls : m'.calls = m.calls) :
    Waits waiting m' := ⟨h.nodup, fun k => by rw [hcalls, h.mem_iff]⟩

theorem Waits.setCall (h : Waits waiting m) (hbefore : (m.calls k).isOffering = false)
    (hph : ph.isOffering = false) : Waits waiting (m.setCall k ph) where
  nodup := h.nodup
  mem_iff k' := by
    refine setCall_of (P := fun ph => k' ∈ waiting ↔ ph.isOffering = true) (fun hk => ?_)
      (h.mem_iff k')
    rw [hk, h.mem_iff, hbefore, hph]

theorem Waits.arrived (h : Waits waiting m) (hbefore : (m.calls k).isOffering = false)
    (hph : ph.isOffering = true) : Waits (k :: waiting) (m.setCall k ph) where
  nodup := List.nodup_cons.mpr ⟨by simp [h.mem_iff, hbefore], h.nodup⟩
  mem_iff k' := by
    by_cases hk : k' = k
    · subst hk
      simp [hph]
    · rw [setCall_ne hk, List.mem_cons, h.mem_iff]
      simp [hk]

theorem Waits.left (h : Waits waiting m) (hph : ph.isOffering = false) :
    Waits (waiting.erase k) (m.setCall k ph) where
  nodup := h.nodup.erase k
  mem_iff k' := by
    rw [h.nodup.mem_erase_iff]
    by_cases hk : k' = k
    · subst hk
      simp [hph]
    · rw [setCall_ne hk, h.mem_iff]
      simp [hk]

end

variable [DecidableEq κ]

/-- What has been handed out, offered and dropped, against what has happened. -/
structure Account (past : List (Event κ α)) (m : State κ α) : Prop where
  returned : ∀ e ∈ sinceReset past, ∀ o, e.returned? = some o → m.index.built.stored = some o
  contents : m.index.built.stored.map (·.value) =
    (firstOffered? past).map UniqueIndex.ofEntries
  balanced : m.index.built.dropped + publications past = offers past
  /-- What was built and not yet offered is about to be. -/
  waiting : ∃ waiting, Waits waiting m ∧ offers past + waiting.length = completions past

theorem account_initial : Account [] (.initial : State κ α) where
  returned e he := by cases he
  contents := rfl
  balanced := rfl
  waiting := ⟨[], ⟨List.nodup_nil, fun k => by simp [State.initial, Phase.isOffering]⟩, rfl⟩

section

variable {m m' : State κ α} {e : Event κ α} {past : List (Event κ α)} {k : Nat}

/-- What was handed out since the reset is what the slot holds. -/
theorem returned_step (h : Account past m) (hs : Step m e m') :
    ∀ e' ∈ sinceReset (e :: past), ∀ o, e'.returned? = some o →
      m'.index.built.stored = some o := by
  intro e' he' o ho
  cases hr : e.isReset with
  | true => simp [sinceReset, hr] at he'
  | false =>
    rw [sinceReset_cons hr] at he'
    rcases List.mem_cons.mp he' with rfl | he'
    · exact stored_of_returned hs ho
    · exact stored_step hs hr (h.returned e' he' o ho)

/-- An offer changes what the slot holds only where it holds nothing. -/
theorem value_offer {β : Type} (s : WriteOnce β) (o : Shared β) :
    (s.offer o).2.stored.map (·.value) = some ((s.stored.map (·.value)).getD o.value) := by
  rw [WriteOnce.stored_offer, WriteOnce.offer_answer]
  cases s.stored <;> rfl

/-- The index that is kept is of the entries that were offered first. -/
theorem contents_step (h : Account past m) (hs : Step m e m') :
    m'.index.built.stored.map (·.value) =
      (firstOffered? (e :: past)).map UniqueIndex.ofEntries := by
  by_cases hquiet : e.offered? = none ∧ e.isReset = false
  · rw [firstOffered?_quiet hquiet.1 hquiet.2, built_step hs hquiet.1 hquiet.2]
    exact h.contents
  · cases hs with
    | @publish k entries hc =>
      refine (value_offer m.index.built ⟨m.index.nextKey, .ofEntries entries⟩).trans ?_
      rw [firstOffered?_offered rfl rfl, h.contents]
      cases firstOffered? past <;> rfl
    | reset => rfl
    | _ => exact absurd ⟨rfl, rfl⟩ hquiet

theorem balanced_step (h : Account past m) (hs : Step m e m') :
    m'.index.built.dropped + publications (e :: past) = offers (e :: past) := by
  have hbalanced := h.balanced
  cases hs with
  | @publish k entries hc =>
    rw [offers_publish, publications_publish]
    have hdropped : (m.publish k entries).index.built.dropped +
        (m.index.offer entries).1.2.toNat = m.index.built.dropped + 1 :=
      m.index.built.dropped_offer ⟨m.index.nextKey, .ofEntries entries⟩
    omega
  | _ => exact hbalanced

theorem waiting_step (h : Account past m) (hs : Step m e m') :
    ∃ waiting, Waits waiting m' ∧
      offers (e :: past) + waiting.length = completions (e :: past) := by
  obtain ⟨waiting, hw, hlen⟩ := h.waiting
  have hnot : ∀ {k : Nat} {ph : Phase κ α}, m.calls k = ph → ph.isOffering = false →
      (m.calls k).isOffering = false := fun h h' => h ▸ h'
  cases hs with
  | enter hc => exact ⟨waiting, hw.setCall (hnot hc rfl) rfl, hlen⟩
  | reuse hc => exact ⟨waiting, hw.setCall (hnot hc rfl) rfl, hlen⟩
  | begin hc => exact ⟨waiting, hw.setCall (hnot hc rfl) rfl, hlen⟩
  | fail hc => exact ⟨waiting, hw.setCall (hnot hc rfl) rfl, hlen⟩
  | @finish k entries hc =>
    refine ⟨k :: waiting, hw.arrived (hnot hc rfl) rfl, ?_⟩
    rw [completions_finish, ← hlen]
    rfl
  | @publish k entries hc =>
    have hmem : k ∈ waiting := (hw.mem_iff k).mpr (by rw [hc]; rfl)
    have hw' : Waits waiting { m with index := (m.index.offer entries).2 } := hw.of_calls rfl
    refine ⟨waiting.erase k, hw'.left rfl, ?_⟩
    have hlength := List.length_erase_of_mem hmem
    have hpos := List.length_pos_of_mem hmem
    rw [offers_publish]
    show _ = completions past
    omega
  | get => exact ⟨waiting, hw, hlen⟩
  | isBuilt => exact ⟨waiting, hw, hlen⟩
  | reset => exact ⟨waiting, hw.of_calls rfl, hlen⟩
  | note => exact ⟨waiting, hw.of_calls rfl, hlen⟩

theorem account_step (h : Account past m) (hs : Step m e m') : Account (e :: past) m' :=
  ⟨returned_step h hs, contents_step h hs, balanced_step h hs, waiting_step h hs⟩

theorem account_run (h : Run .initial past m) : Account past m := by
  induction h with
  | refl => exact account_initial
  | step _ hs ih => exact account_step ih hs

/-! ### What building comes to -/

/-- What is true of the state that some events lead to, and of all that may follow. -/
structure Builds (past : List (Event κ α)) (m : State κ α) : Prop where
  /-- All that was handed out since the reset is the index that is kept. -/
  returned : ∀ e ∈ sinceReset past, ∀ o, e.returned? = some o → m.index.built.stored = some o
  /-- It is of the entries that were offered first. -/
  contents : m.index.built.stored.map (·.value) =
    (firstOffered? past).map UniqueIndex.ofEntries
  /-- A call that has found the index has not built one. -/
  reused : ∀ k o, .reuse k o ∈ past → ∀ e ∈ past, e.buildsIn k = false
  /-- And a call that is entered where there is one will build none. -/
  spared : ∀ k o, m.index.built.stored = some o → m.calls k = .entered →
    ∀ future m', Run m future m' → ∀ e ∈ future, e.buildsIn k = false
  /-- A call whose snapshot has failed offers nothing. -/
  failed : ∀ k, .fail k ∈ past → ∀ e ∈ past, e.offersIn k = false
  /-- Only what is offered, and a reset, change the slot. -/
  others : ∀ e m', Step m e m' → e.offered? = none → e.isReset = false →
    m'.index.built = m.index.built
  /-- A reset empties the slot, and leaves the count of what was dropped. -/
  reset : ∀ o m', Step m (.reset o) m' → m'.index.built = ⟨none, m.index.built.dropped⟩
  /-- Each index that was ever offered is one that was kept or was dropped. -/
  balanced : m.index.built.dropped + publications past = offers past
  /-- Each index that was ever built was offered, or its call is about to offer it. -/
  completed : ∃ waiting, Waits waiting m ∧ offers past + waiting.length = completions past

/-- **One index between two resets.** -/
theorem run_builds (h : Run .initial past m) : Builds past m := by
  have haccount := account_run h
  have hmarks := marks_run h
  exact
    { returned := haccount.returned
      contents := haccount.contents
      reused := fun k o hmem e he => by
        have hfound : m.calls k = .found o := hmarks _ hmem
        refine Bool.eq_false_iff.mpr fun hb => ?_
        have hbegun := hasBegun_of_buildsIn (hmarks e he) hb
        rw [hfound] at hbegun
        cases hbegun
      spared := fun k o hst hc _ _ hr => (readsOnly_run hr (.inl ⟨hc, hst⟩)).2
      failed := fun k hmem e he => by
        have hfailed : m.calls k = .failed := hmarks _ hmem
        refine Bool.eq_false_iff.mpr fun hb => ?_
        have hbuilt := hasBuilt_of_offersIn (hmarks e he) hb
        rw [hfailed] at hbuilt
        cases hbuilt
      others := fun _ _ hs ho hr => built_step hs ho hr
      reset := fun o m' hs => by
        cases hs
        rfl
      balanced := haccount.balanced
      completed := haccount.waiting }

end

/-- A build in whose snapshot another one is built and found again, a reset, a build that fails, and
one that does not. -/
theorem nested_builds : ∃ (past : List (Event Nat Nat)) (m : State Nat Nat),
    Run .initial past m ∧ Builds past m ∧ offers past = 3 ∧ publications past = 2 ∧
      m.index.built = ⟨some ⟨2, ⟨[(0, 7)]⟩⟩, 1⟩ := by
  have h₁ : Run (.initial : State Nat Nat) _ _ := .step .refl (.enter (k := 0) rfl)
  have h₂ := h₁.step (.begin (k := 0) rfl rfl)
  have h₃ := h₂.step (.enter (k := 1) rfl)
  have h₄ := h₃.step (.begin (k := 1) rfl rfl)
  have h₅ := h₄.step (.finish (k := 1) [(0, some 5)] rfl)
  have h₆ := h₅.step (.publish (k := 1) rfl)
  have h₇ := h₆.step (.enter (k := 2) rfl)
  have h₈ := h₇.step (.reuse (k := 2) rfl rfl)
  have h₉ := h₈.step (.finish (k := 0) [(0, some 6)] rfl)
  have h₁₀ := h₉.step (.publish (k := 0) rfl)
  have h₁₁ := h₁₀.step .get
  have h₁₂ := h₁₁.step (.reset fun
    | 0 => rfl
    | 1 => rfl
    | 2 => rfl
    | _ + 3 => rfl)
  have h₁₃ := h₁₂.step (.enter (k := 3) rfl)
  have h₁₄ := h₁₃.step (.begin (k := 3) rfl rfl)
  have h₁₅ := h₁₄.step (.fail (k := 3) rfl)
  have h₁₆ := h₁₅.step (.enter (k := 4) rfl)
  have h₁₇ := h₁₆.step (.begin (k := 4) rfl rfl)
  have h₁₈ := h₁₇.step (.finish (k := 4) [(0, some 7), (1, none)] rfl)
  have h₁₉ := h₁₈.step (.publish (k := 4) rfl)
  exact ⟨_, _, h₁₉, run_builds h₁₉, rfl, rfl, rfl⟩

end Building
end Deferral
