/-
# A program that builds takes these steps

What is done with an index, one thing after the other, is a run of calls: a build whose snapshot
does more with the index is a call that others nest in, and threads that race are calls that begin
before any of them ends. Each gets a number of its own.

Key definitions: `Building.Follows`, `Building.Tracked`.
Key theorems: `Building.Follows.trans`, `Building.tracked_demand`, `Building.tracked_perform`,
`Building.performEach_run`.
-/
import Deferral.Proofs.SharedBuilds

namespace Deferral
namespace Building

open Emission

/-! ### Runs of a program -/

/-- The calls from number `b` on have not been entered. -/
def FreeFrom (b : Nat) (m : State String Int) : Prop := ∀ k, b ≤ k → m.calls k = .outside

/-- No call is under way. -/
def Idle (m : State String Int) : Prop := ∀ k, (m.calls k).inFlight = false

/-- From one state to another by calls with numbers from `b` up to `b'`, which all end, and which
hand out these indexes among others. -/
structure Follows (m : State String Int) (b : Nat) (got : List (SharedIndex String Int))
    (past : List (Event String Int)) (m' : State String Int) (b' : Nat) : Prop where
  run : Run m past m'
  free : FreeFrom b' m'
  le : b ≤ b'
  before : ∀ k, k < b → m'.calls k = m.calls k
  ended : ∀ k, b ≤ k → (m'.calls k).inFlight = false
  got : got.Sublist (past.filterMap Event.returned?).reverse

section

variable {m m₁ m' : State String Int} {b b₁ b' : Nat} {got got' : List (SharedIndex String Int)}
variable {past past' : List (Event String Int)}

theorem Run.trans (h : Run m past m₁) (h' : Run m₁ past' m') : Run m (past' ++ past) m' := by
  induction h' with
  | refl => exact h
  | step _ hs ih => exact ih.step hs

theorem Follows.trans (h : Follows m b got past m₁ b₁) (h' : Follows m₁ b₁ got' past' m' b') :
    Follows m b (got ++ got') (past' ++ past) m' b' where
  run := h.run.trans h'.run
  free := h'.free
  le := Nat.le_trans h.le h'.le
  before k hk := (h'.before k (Nat.lt_of_lt_of_le hk h.le)).trans (h.before k hk)
  ended k hk := by
    by_cases hlt : k < b₁
    · rw [h'.before k hlt]
      exact h.ended k hk
    · exact h'.ended k (Nat.le_of_not_lt hlt)
  got := by
    rw [List.filterMap_append, List.reverse_append]
    exact h.got.append h'.got

/-- The calls are idle after a run if they were before. -/
theorem Follows.idle (h : Follows m b got past m' b') (hidle : Idle m) : Idle m' := fun k => by
  by_cases hk : k < b
  · rw [h.before k hk]
    exact hidle k
  · exact h.ended k (Nat.le_of_not_lt hk)

theorem FreeFrom.of_ne (h : FreeFrom b m) (hcalls : ∀ k, k ≠ b → m'.calls k = m.calls k) :
    FreeFrom (b + 1) m' := fun k hk => by
  rw [hcalls k (by omega), h k (by omega)]

theorem Follows.refl (hfree : FreeFrom b m) : Follows m b [] [] m b where
  run := .refl
  free := hfree
  le := Nat.le_refl b
  before _ _ := rfl
  ended k hk := by
    rw [hfree k hk]
    rfl
  got := List.Sublist.refl []

theorem Follows.mono (h : Follows m b got past m' b') (hgot : got'.Sublist got) :
    Follows m b got' past m' b' :=
  { h with got := hgot.trans h.got }

/-- What a call does before and after the others that nest in it. -/
theorem Follows.around {m₂ : State String Int} {pre post : List (Event String Int)}
    (hpre : Run m pre m₁) (hcalls : ∀ k, k ≠ b → m₁.calls k = m.calls k)
    (h : Follows m₁ (b + 1) got past m₂ b') (hpost : Run m₂ post m')
    (hcalls' : ∀ k, k ≠ b → m'.calls k = m₂.calls k) (hend : (m'.calls b).inFlight = false) :
    Follows m b (got ++ (post.filterMap Event.returned?).reverse) (post ++ (past ++ pre)) m'
      b' where
  run := (hpre.trans h.run).trans hpost
  free k hk := by
    have hle := h.le
    rw [hcalls' k (by omega), h.free k hk]
  le := Nat.le_of_succ_le h.le
  before k hk := by rw [hcalls' k (by omega), h.before k (by omega), hcalls k (by omega)]
  ended k hk := by
    by_cases hkb : k = b
    · rw [hkb]
      exact hend
    · rw [hcalls' k hkb]
      exact h.ended k (by omega)
  got := by
    rw [List.filterMap_append, List.reverse_append, List.filterMap_append, List.reverse_append]
    exact (h.got.trans (List.sublist_append_right _ _)).append (.refl _)

/-- A step which is about no call. -/
theorem Follows.of_step {e : Event String Int} (hfree : FreeFrom b m) (hs : Step m e m')
    (hcalls : m'.calls = m.calls) (hgot : got = e.returned?.toList) :
    Follows m b got [e] m' b where
  run := .step .refl hs
  free k hk := by rw [hcalls, hfree k hk]
  le := Nat.le_refl b
  before k _ := by rw [hcalls]
  ended k hk := by
    rw [hcalls, hfree k hk]
    rfl
  got := by
    rw [hgot]
    cases h : e.returned? <;> simp [h]

end

/-! ### What a program hands out -/

mutual

/-- The indexes that are handed out in the course of a step, in order. -/
def handedOut : IndexEntry → List (SharedIndex String Int)
  | .mk answer _ => handedOutBy answer

/-- The indexes that an answer comes with, those of the nested steps first. -/
def handedOutBy : IndexAnswer → List (SharedIndex String Int)
  | .built got none => got.toList
  | .built got (some during) => handedOutByAll during ++ got.toList
  | .index o => o.toList
  | .dropped _ => []
  | .text _ => []

/-- The indexes that are handed out in the course of steps. -/
def handedOutByAll : List IndexEntry → List (SharedIndex String Int)
  | [] => []
  | e :: rest => handedOut e ++ handedOutByAll rest

end

mutual

/-- The step drops the index, or it is a build that does. -/
def drops : IndexStep → Bool
  | .demand _ during _ => dropsAmong during
  | .drop => true
  | _ => false

/-- One of the steps drops the index. -/
def dropsAmong : List IndexStep → Bool
  | [] => false
  | step :: rest => drops step || dropsAmong rest

end

/-! ### Steps and their runs -/

/-- Whatever calls are under way, there is a run from the one index to the other that hands out
these indexes. -/
def Tracked (d : OnDemandIndex String Int) (got : List (SharedIndex String Int))
    (d' : OnDemandIndex String Int) : Prop :=
  ∀ (m : State String Int) (b : Nat), m.index = d → FreeFrom b m →
    ∃ past m' b', Follows m b got past m' b' ∧ m'.index = d'

section

variable {d d₁ d' : OnDemandIndex String Int} {got got' : List (SharedIndex String Int)}
variable {m m₁ m₂ m' : State String Int} {b b' : Nat}

theorem tracked_refl (d : OnDemandIndex String Int) : Tracked d [] d := fun m b hm hfree =>
  ⟨[], m, b, .refl hfree, hm⟩

theorem Tracked.trans (h : Tracked d got d₁) (h' : Tracked d₁ got' d') :
    Tracked d (got ++ got') d' := fun m b hm hfree => by
  obtain ⟨past, m₁, b₁, hf, hm₁⟩ := h m b hm hfree
  obtain ⟨past', m', b', hf', hm'⟩ := h' m₁ b₁ hm₁ hf.free
  exact ⟨past' ++ past, m', b', hf.trans hf', hm'⟩

theorem tracked_get (d : OnDemandIndex String Int) : Tracked d d.built.stored.toList d :=
  fun m b hm hfree => ⟨_, m, b, .of_step hfree .get rfl (by rw [← hm]; rfl), hm⟩

/-- A call that finds the index. -/
theorem tracked_reuse {o : SharedIndex String Int} (h : d.built.stored = some o) :
    Tracked d [o] d := fun m b hm hfree => by
  have hstored : m.index.built.stored = some o := hm ▸ h
  have hne : ∀ k, k ≠ b → (m.setCall b .entered).calls k = m.calls k := fun k hk => setCall_ne hk
  have hpre : Run m [.enter b] (m.setCall b .entered) :=
    .step .refl (.enter (hfree b (Nat.le_refl b)))
  have hpost : Run (m.setCall b .entered) [.reuse b o]
      ((m.setCall b .entered).setCall b (.found o)) :=
    .step .refl (.reuse setCall_self hstored)
  exact ⟨_, _, _, .around hpre hne (.refl (hfree.of_ne hne)) hpost (fun k hk => setCall_ne hk)
    (by simp [Phase.inFlight]), hm⟩

theorem offerMany_succ (snapshot : List (String × Option Int)) (n : Nat)
    (d : OnDemandIndex String Int) : OnDemandIndex.offerMany snapshot (n + 1) d =
      ((OnDemandIndex.offerMany snapshot n d).offer snapshot).2 := by
  induction n generalizing d with
  | zero => rfl
  | succ n ih => exact ih (d.offer snapshot).2

/-- A call has begun to build. -/
theorem run_begun (hfree : FreeFrom b m) (h : m.index.built.stored = none) :
    Run m [.begin b, .enter b] ((m.setCall b .entered).setCall b .building) :=
  (Run.refl.step (.enter (hfree b (Nat.le_refl b)))).step (.begin setCall_self h)

/-- Calls that all begin before any of them ends. -/
theorem tracked_race (h : d.built.stored = none) (snapshot : List (String × Option Int))
    (n : Nat) : Tracked d [] (OnDemandIndex.offerMany snapshot n d) := by
  induction n with
  | zero => exact tracked_refl d
  | succ n ih =>
    intro m b hm hfree
    have hne : ∀ k, k ≠ b → (((m.setCall b .entered).setCall b .building).setCall b
        (.offering snapshot)).calls k = m.calls k := fun k hk => by
      rw [setCall_ne hk, setCall_ne hk, setCall_ne hk]
    have hpre := (run_begun hfree (hm ▸ h)).step (.finish snapshot setCall_self)
    obtain ⟨past, m₂, b', hf, hm₂⟩ := ih (((m.setCall b .entered).setCall b .building).setCall b
      (.offering snapshot)) (b + 1) hm (hfree.of_ne hne)
    have hoffering : m₂.calls b = .offering snapshot :=
      (hf.before b (Nat.lt_succ_self b)).trans setCall_self
    refine ⟨_, _, _, (Follows.around hpre hne hf (.step .refl (.publish hoffering))
      (fun k hk => setCall_ne hk) (by simp [State.publish, Phase.inFlight])).mono
      (List.nil_sublist _), ?_⟩
    rw [offerMany_succ, ← hm₂]
    rfl

/-- A call that has its snapshot offers its index. -/
theorem run_finished (h : m.calls b = .building) (snapshot : List (String × Option Int)) :
    ∃ post m', Run m post m' ∧ m'.index = (m.index.finish snapshot).2 ∧
      (∀ k, k ≠ b → m'.calls k = m.calls k) ∧ (m'.calls b).inFlight = false ∧
      (post.filterMap Event.returned?).reverse = [(m.index.finish snapshot).1] := by
  have hoffering : (m.setCall b (.offering snapshot)).calls b = .offering snapshot := setCall_self
  have hbuilt := ((Run.refl.step (.finish snapshot h)).step
    (.note (t := ⟨.record, OnDemandIndex.buildSpan,
      [("entries", .number (UniqueIndex.ofEntries snapshot).size)]⟩))).step (.publish hoffering)
  have hne : ∀ k, k ≠ b → (State.publish { m.setCall b (.offering snapshot) with
      index := m.index.emit ⟨.record, OnDemandIndex.buildSpan,
        [("entries", .number (UniqueIndex.ofEntries snapshot).size)]⟩ } b snapshot).calls k =
      m.calls k := fun k hk => (setCall_ne hk).trans (setCall_ne hk)
  cases hwon : ((m.index.emit ⟨.record, OnDemandIndex.buildSpan,
      [("entries", .number (UniqueIndex.ofEntries snapshot).size)]⟩).offer snapshot).1.2 with
  | true =>
    refine ⟨_, _, hbuilt.step (.note (t := ⟨.exit, OnDemandIndex.buildSpan, []⟩)), ?_, hne,
      congrArg Phase.inFlight setCall_self, rfl⟩
    simp [OnDemandIndex.finish, hwon, State.publish, OnDemandIndex.leave]
  | false =>
    refine ⟨_, _, (hbuilt.step (.note (t := ⟨.event,
      "index built concurrently, discarding local build", []⟩))).step
      (.note (t := ⟨.exit, OnDemandIndex.buildSpan, []⟩)), ?_, hne,
      congrArg Phase.inFlight setCall_self, rfl⟩
    simp [OnDemandIndex.finish, hwon, State.publish, OnDemandIndex.leave]

theorem tracked_demand {during : List IndexStep}
    (hduring : ∀ d : OnDemandIndex String Int,
      Tracked d (handedOutByAll (d.performEach during).1) (d.performEach during).2)
    (snapshot : List (String × Option Int)) (fails : Bool) (d : OnDemandIndex String Int) :
    Tracked d (handedOut (d.perform (.demand snapshot during fails)).1)
      (d.perform (.demand snapshot during fails)).2 := by
  cases hst : d.built.stored with
  | some o =>
    simp only [OnDemandIndex.perform, hst]
    exact tracked_reuse hst
  | none =>
    intro m b hm hfree
    have hpre := (run_begun hfree (hm ▸ hst)).step
      (.note (t := ⟨.span, OnDemandIndex.buildSpan, []⟩))
    have hne : ∀ k, k ≠ b → ((m.setCall b .entered).setCall b .building).calls k = m.calls k :=
      fun k hk => by rw [setCall_ne hk, setCall_ne hk]
    obtain ⟨past, m₂, b', hf, hm₂⟩ := hduring d.enter
      { (m.setCall b .entered).setCall b .building with index := m.index.enter } (b + 1)
      (hm ▸ rfl) (hfree.of_ne hne)
    have hbuilding : m₂.calls b = .building := (hf.before b (Nat.lt_succ_self b)).trans setCall_self
    cases fails with
    | true =>
      have hpost := (Run.refl.step (.fail hbuilding)).step
        (.note (t := ⟨.exit, OnDemandIndex.buildSpan, []⟩))
      refine ⟨_, _, _, (Follows.around hpre hne hf hpost (fun k hk => setCall_ne hk)
        (by simp [Phase.inFlight])).mono ?_, ?_⟩
      · simp [OnDemandIndex.perform, hst, handedOut, handedOutBy]
      · simp [OnDemandIndex.perform, hst, ← hm₂, OnDemandIndex.leave]
    | false =>
      obtain ⟨post, m', hpost, hindex, hcalls, hend, hgot⟩ := run_finished hbuilding snapshot
      refine ⟨_, _, _, (Follows.around hpre hne hf hpost hcalls hend).mono ?_, ?_⟩
      · simp [OnDemandIndex.perform, hst, handedOut, handedOutBy, hgot, ← hm₂]
      · simp [OnDemandIndex.perform, hst, ← hm₂, hindex]

mutual

theorem tracked_perform (step : IndexStep) (h : drops step = false)
    (d : OnDemandIndex String Int) :
    Tracked d (handedOut (d.perform step).1) (d.perform step).2 := by
  cases step with
  | demand snapshot during fails =>
    exact tracked_demand (fun d => tracked_performEach during (by simpa [drops] using h) d)
      snapshot fails d
  | get => exact tracked_get d
  | drop => cases h
  | describe => exact tracked_refl d
  | race threads snapshot =>
    have hrace : Tracked d [] (if d.isBuilt then d
        else OnDemandIndex.offerMany snapshot threads d) := by
      split
      · exact tracked_refl d
      · rename_i hnot
        refine tracked_race ?_ snapshot threads
        simpa [OnDemandIndex.isBuilt, WriteOnce.isFilled] using hnot
    exact hrace.trans (tracked_get _)

theorem tracked_performEach (steps : List IndexStep) (h : dropsAmong steps = false)
    (d : OnDemandIndex String Int) :
    Tracked d (handedOutByAll (d.performEach steps).1) (d.performEach steps).2 := by
  cases steps with
  | nil => exact tracked_refl d
  | cons step rest =>
    obtain ⟨hstep, hrest⟩ : drops step = false ∧ dropsAmong rest = false := by
      simpa [dropsAmong] using h
    exact (tracked_perform step hstep d).trans (tracked_performEach rest hrest _)

end

/-- While no call is under way, the index may be dropped. -/
theorem follows_step {step : IndexStep} (h : drops step = true → step = .drop)
    (hfree : FreeFrom b m) (hidle : Idle m) :
    ∃ past m' b', Follows m b (handedOut (m.index.perform step).1) past m' b' ∧
      m'.index = (m.index.perform step).2 := by
  cases hd : drops step with
  | false => exact tracked_perform step hd m.index m b rfl hfree
  | true =>
    obtain rfl := h hd
    exact ⟨_, _, b, .of_step hfree (.reset hidle) rfl rfl, rfl⟩

theorem follows_steps {steps : List IndexStep}
    (h : ∀ step ∈ steps, drops step = true → step = .drop) (hfree : FreeFrom b m) (hidle : Idle m) :
    ∃ past m' b', Follows m b (handedOutByAll (m.index.performEach steps).1) past m' b' ∧
      m'.index = (m.index.performEach steps).2 := by
  induction steps generalizing m b with
  | nil => exact ⟨[], m, b, .refl hfree, rfl⟩
  | cons step rest ih =>
    obtain ⟨hstep, hrest⟩ := List.forall_mem_cons.mp h
    obtain ⟨past, m₁, b₁, hf, hm₁⟩ := follows_step hstep hfree hidle
    obtain ⟨past', m', b', hf', hm'⟩ := ih hrest hf.free (hf.idle hidle)
    rw [hm₁] at hf' hm'
    exact ⟨past' ++ past, m', b', hf.trans hf', hm'⟩

/-- **A program is a run of calls.** Where no step drops the index inside another, what a program
does to the index and hands out is what a run does. -/
theorem performEach_run {steps : List IndexStep}
    (h : ∀ step ∈ steps, drops step = true → step = .drop) :
    ∃ past m', Run .initial past m' ∧ m'.index = (OnDemandIndex.empty.performEach steps).2 ∧
      (handedOutByAll (OnDemandIndex.empty.performEach steps).1).Sublist
        (past.filterMap Event.returned?).reverse := by
  obtain ⟨past, m', b', hf, hm'⟩ := follows_steps h (m := .initial) (b := 0) (fun _ _ => rfl)
    (fun _ => rfl)
  exact ⟨past, m', hf.run, hm', hf.got⟩

end

end Building
end Deferral
