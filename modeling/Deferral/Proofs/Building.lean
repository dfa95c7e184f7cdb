/-
# Building an index, step by step

A call that needs the index reads its slot, builds an index from its snapshot unless one is there,
and offers what it has built to the slot. Other calls may come between: on other threads, or nested
in the taking of the snapshot, which may also fail. The index is reset only while no call is under
way. Any number of calls take their steps in any order here.

Key definitions: `Building.Phase`, `Building.State`, `Building.Step`, `Building.Run`.
Key theorems: `Building.stored_step`, `Building.marks_run`, `Building.readsOnly_run`.
-/
import Deferral.Emission.OnDemandIndex

namespace Deferral
namespace Building

open Emission

variable {κ α : Type}

/-! ### Calls and their steps -/

/-- How far a call has come. -/
inductive Phase (κ α : Type) where
  | outside
  | entered
  /-- It takes its snapshot. -/
  | building
  /-- It has built an index of these entries. -/
  | offering (entries : List (κ × Option α))
  /-- It has answered what it read. -/
  | found (o : SharedIndex κ α)
  /-- It has answered what the slot kept, which is its own index if it won. -/
  | published (o : SharedIndex κ α) (won : Bool)
  | failed

namespace Phase

/-- The call is under way. -/
def inFlight : Phase κ α → Bool
  | .entered => true
  | .building => true
  | .offering _ => true
  | _ => false

/-- The call has found no index. -/
def hasBegun : Phase κ α → Bool
  | .building => true
  | .offering _ => true
  | .published _ _ => true
  | .failed => true
  | _ => false

/-- The call has built an index. -/
def hasBuilt : Phase κ α → Bool
  | .offering _ => true
  | .published _ _ => true
  | _ => false

/-- The call is about to offer what it has built. -/
def isOffering : Phase κ α → Bool
  | .offering _ => true
  | _ => false

end Phase

/-- An index, and how far each call has come. -/
structure State (κ α : Type) where
  index : OnDemandIndex κ α
  calls : Nat → Phase κ α

namespace State

/-- Nothing is built, and nothing has been called. -/
def initial : State κ α := ⟨.empty, fun _ => .outside⟩

/-- Call `k` gets to the phase `ph`. -/
def setCall (m : State κ α) (k : Nat) (ph : Phase κ α) : State κ α :=
  { m with calls := fun k' => if k' = k then ph else m.calls k' }

/-- A call offers the index of its entries, and has the answer. -/
def publish [DecidableEq κ] (m : State κ α) (k : Nat) (entries : List (κ × Option α)) : State κ α :=
  { m with index := (m.index.offer entries).2 }.setCall k
    (.published (m.index.offer entries).1.1 (m.index.offer entries).1.2)

end State

/-- What happens, to which call, and what is answered. -/
inductive Event (κ α : Type) where
  | enter (k : Nat)
  /-- The call finds the index. -/
  | reuse (k : Nat) (o : SharedIndex κ α)
  /-- The call finds none, and begins to take its snapshot. -/
  | begin (k : Nat)
  | fail (k : Nat)
  | finish (k : Nat) (entries : List (κ × Option α))
  | publish (k : Nat) (entries : List (κ × Option α)) (o : SharedIndex κ α) (won : Bool)
  | get (o : Option (SharedIndex κ α))
  | isBuilt (b : Bool)
  | reset (o : Option (SharedIndex κ α))
  /-- Something is written to the trace. -/
  | note (t : TraceEntry)

/-- One step, which nothing comes between. -/
inductive Step [DecidableEq κ] (m : State κ α) : Event κ α → State κ α → Prop where
  | enter {k : Nat} (h : m.calls k = .outside) : Step m (.enter k) (m.setCall k .entered)
  | reuse {k : Nat} {o : SharedIndex κ α} (h : m.calls k = .entered)
      (hs : m.index.built.stored = some o) : Step m (.reuse k o) (m.setCall k (.found o))
  | begin {k : Nat} (h : m.calls k = .entered) (hs : m.index.built.stored = none) :
      Step m (.begin k) (m.setCall k .building)
  | fail {k : Nat} (h : m.calls k = .building) : Step m (.fail k) (m.setCall k .failed)
  | finish {k : Nat} (entries : List (κ × Option α)) (h : m.calls k = .building) :
      Step m (.finish k entries) (m.setCall k (.offering entries))
  | publish {k : Nat} {entries : List (κ × Option α)} (h : m.calls k = .offering entries) :
      Step m (.publish k entries (m.index.offer entries).1.1 (m.index.offer entries).1.2)
        (m.publish k entries)
  | get : Step m (.get m.index.built.stored) m
  | isBuilt : Step m (.isBuilt m.index.isBuilt) m
  | reset (h : ∀ k, (m.calls k).inFlight = false) :
      Step m (.reset m.index.drop.1) { m with index := m.index.drop.2 }
  | note {t : TraceEntry} : Step m (.note t) { m with index := m.index.emit t }

/-- From one state to another, by events of which the latest comes first. -/
inductive Run [DecidableEq κ] (m : State κ α) : List (Event κ α) → State κ α → Prop where
  | refl : Run m [] m
  | step {past : List (Event κ α)} {m' m'' : State κ α} {e : Event κ α} (h : Run m past m')
      (hs : Step m' e m'') : Run m (e :: past) m''

/-! ### What events say -/

namespace Event

/-- The index that is handed out, if one is. -/
def returned? : Event κ α → Option (SharedIndex κ α)
  | .reuse _ o => some o
  | .publish _ _ o _ => some o
  | .get o => o
  | _ => none

/-- The entries of the index that is offered. -/
def offered? : Event κ α → Option (List (κ × Option α))
  | .publish _ entries _ _ => some entries
  | _ => none

def isReset : Event κ α → Bool
  | .reset _ => true
  | _ => false

/-- A snapshot is complete, and an index built. -/
def isFinish : Event κ α → Bool
  | .finish _ _ => true
  | _ => false

/-- An index is offered and kept. -/
def isPublication : Event κ α → Bool
  | .publish _ _ _ won => won
  | _ => false

/-- The call does what it does only where it builds an index. -/
def buildsIn (k : Nat) : Event κ α → Bool
  | .begin k' => k' = k
  | .fail k' => k' = k
  | .finish k' _ => k' = k
  | .publish k' _ _ _ => k' = k
  | _ => false

/-- The call offers what it has built. -/
def offersIn (k : Nat) : Event κ α → Bool
  | .publish k' _ _ _ => k' = k
  | _ => false

/-- What an event leaves behind on the call that it is about. -/
def Marks (m : State κ α) : Event κ α → Prop
  | .reuse k o => m.calls k = .found o
  | .begin k => (m.calls k).hasBegun = true
  | .fail k => m.calls k = .failed
  | .finish k _ => (m.calls k).hasBuilt = true
  | .publish k _ o won => m.calls k = .published o won
  | _ => True

end Event

/-- The events since the index was reset. -/
def sinceReset (past : List (Event κ α)) : List (Event κ α) :=
  past.takeWhile fun e => !e.isReset

/-- The entries of the index that was offered first since the index was reset. -/
def firstOffered? (past : List (Event κ α)) : Option (List (κ × Option α)) :=
  ((sinceReset past).filterMap Event.offered?).getLast?

/-- The number of indexes that were offered. -/
def offers (past : List (Event κ α)) : Nat := past.countP fun e => e.offered?.isSome

/-- The number of indexes that were offered and kept. -/
def publications (past : List (Event κ α)) : Nat := past.countP Event.isPublication

/-- The number of indexes that were built. -/
def completions (past : List (Event κ α)) : Nat := past.countP Event.isFinish

/-! ### How a call goes on -/

namespace Phase

/-- What a call does next. -/
inductive Moves : Phase κ α → Phase κ α → Prop
  | enter : Moves .outside .entered
  | reuse (o : SharedIndex κ α) : Moves .entered (.found o)
  | begin : Moves .entered .building
  | fail : Moves .building .failed
  | finish (entries : List (κ × Option α)) : Moves .building (.offering entries)
  | publish (entries : List (κ × Option α)) (o : SharedIndex κ α) (won : Bool) :
      Moves (.offering entries) (.published o won)

variable {ph ph' : Phase κ α}

theorem Moves.hasBegun (h : Moves ph ph') (hb : ph.hasBegun = true) : ph'.hasBegun = true := by
  cases h <;> first | rfl | cases hb

theorem Moves.hasBuilt (h : Moves ph ph') (hb : ph.hasBuilt = true) : ph'.hasBuilt = true := by
  cases h <;> first | rfl | cases hb

theorem hasBegun_of_hasBuilt (h : ph.hasBuilt = true) : ph.hasBegun = true := by
  cases ph <;> first | rfl | cases h

end Phase

section

variable {m : State κ α} {e : Event κ α} {k k' : Nat} {ph : Phase κ α}

@[simp] theorem setCall_index : (m.setCall k ph).index = m.index := rfl

@[simp] theorem setCall_self : (m.setCall k ph).calls k = ph := by simp [State.setCall]

theorem setCall_ne (h : k' ≠ k) : (m.setCall k ph).calls k' = m.calls k' := by
  simp [State.setCall, h]

/-- What holds of the phase that a call gets to, and of the phase there was, holds after it. -/
theorem setCall_of {P : Phase κ α → Prop} (h : k' = k → P ph) (h' : P (m.calls k')) :
    P ((m.setCall k ph).calls k') := by
  by_cases hk : k' = k
  · subst hk
    rw [setCall_self]
    exact h rfl
  · rwa [setCall_ne hk]

theorem setCall_moves (h : (m.calls k).Moves ph) (k' : Nat) :
    (m.setCall k ph).calls k' = m.calls k' ∨ (m.calls k').Moves ((m.setCall k ph).calls k') := by
  by_cases hk : k' = k
  · subst hk
    exact .inr (setCall_self ▸ h)
  · exact .inl (setCall_ne hk)

/-- A call of which the event is part of a build has begun to build. -/
theorem hasBegun_of_buildsIn (h : e.Marks m) (hb : e.buildsIn k = true) :
    (m.calls k).hasBegun = true := by
  cases e with
  | begin k' =>
    obtain rfl := of_decide_eq_true hb
    exact h
  | fail k' =>
    obtain rfl := of_decide_eq_true hb
    exact congrArg Phase.hasBegun h
  | finish k' entries =>
    obtain rfl := of_decide_eq_true hb
    exact Phase.hasBegun_of_hasBuilt h
  | publish k' entries o won =>
    obtain rfl := of_decide_eq_true hb
    exact congrArg Phase.hasBegun h
  | _ => cases hb

theorem hasBuilt_of_offersIn (h : e.Marks m) (hb : e.offersIn k = true) :
    (m.calls k).hasBuilt = true := by
  cases e with
  | publish k' entries o won =>
    obtain rfl := of_decide_eq_true hb
    exact congrArg Phase.hasBuilt h
  | _ => cases hb

end

/-! ### What the steps change -/

section

variable [DecidableEq κ] {m m' : State κ α} {e e' : Event κ α} {past : List (Event κ α)} {k : Nat}
variable {o : SharedIndex κ α}

/-- Each call goes its way. -/
theorem calls_step (hs : Step m e m') (k : Nat) :
    m'.calls k = m.calls k ∨ (m.calls k).Moves (m'.calls k) := by
  cases hs with
  | enter h => exact setCall_moves (h ▸ .enter) k
  | reuse h => exact setCall_moves (h ▸ .reuse _) k
  | begin h => exact setCall_moves (h ▸ .begin) k
  | fail h => exact setCall_moves (h ▸ .fail) k
  | finish _ h => exact setCall_moves (h ▸ .finish _) k
  | publish h => exact setCall_moves (m := { m with index := _ }) (h ▸ .publish _ _ _) k
  | get => exact .inl rfl
  | isBuilt => exact .inl rfl
  | reset => exact .inl rfl
  | note => exact .inl rfl

/-- Only what is offered, and a reset, change the slot. -/
theorem built_step (hs : Step m e m') (ho : e.offered? = none) (hr : e.isReset = false) :
    m'.index.built = m.index.built := by
  cases hs with
  | publish => cases ho
  | reset => cases hr
  | _ => rfl

/-- The index that is kept stays until a reset. -/
theorem stored_step (hs : Step m e m') (hr : e.isReset = false)
    (h : m.index.built.stored = some o) : m'.index.built.stored = some o := by
  cases hs with
  | publish => exact WriteOnce.stored_offer_of_stored h _
  | reset => cases hr
  | _ => exact h

/-- What is handed out is what the slot holds from then on. -/
theorem stored_of_returned (hs : Step m e m') (h : e.returned? = some o) :
    m'.index.built.stored = some o := by
  cases hs with
  | reuse hc hst =>
    cases h
    exact hst
  | publish hc =>
    cases h
    exact WriteOnce.stored_offer _ _
  | get => exact h
  | _ => cases h

theorem marks_self (hs : Step m e m') : e.Marks m' := by
  cases hs with
  | reuse => exact setCall_self
  | begin => simp [Event.Marks, Phase.hasBegun]
  | fail => exact setCall_self
  | finish => simp [Event.Marks, Phase.hasBuilt]
  | publish => exact setCall_self
  | _ => trivial

/-- What an event has left behind stays. -/
theorem marks_step (hs : Step m e m') (h : e'.Marks m) : e'.Marks m' := by
  have hends : ∀ {k : Nat} {ph : Phase κ α}, m.calls k = ph → (∀ ph', ¬ ph.Moves ph') →
      m'.calls k = ph := fun {k ph} hph hmoves => by
    rcases calls_step hs k with heq | hmove
    · rw [heq, hph]
    · exact absurd (hph ▸ hmove) (hmoves _)
  cases e' with
  | reuse k o => exact hends h nofun
  | begin k =>
    rcases calls_step hs k with heq | hmove
    · exact (congrArg Phase.hasBegun heq).trans h
    · exact hmove.hasBegun h
  | fail k => exact hends h nofun
  | finish k entries =>
    rcases calls_step hs k with heq | hmove
    · exact (congrArg Phase.hasBuilt heq).trans h
    · exact hmove.hasBuilt h
  | publish k entries o won => exact hends h nofun
  | enter k => trivial
  | get o => trivial
  | isBuilt b => trivial
  | reset o => trivial
  | note t => trivial

theorem marks_run {m₀ : State κ α} (h : Run m₀ past m) : ∀ e ∈ past, e.Marks m := by
  induction h with
  | refl => exact List.forall_mem_nil _
  | step _ hs ih =>
    exact List.forall_mem_cons.mpr ⟨marks_self hs, fun e he => marks_step hs (ih e he)⟩

/-- The call will read this index, or it has. -/
def ReadsOnly (m : State κ α) (k : Nat) (o : SharedIndex κ α) : Prop :=
  (m.calls k = .entered ∧ m.index.built.stored = some o) ∨ m.calls k = .found o

/-- A call that builds has found no index. -/
theorem not_readsOnly_of_buildsIn (hs : Step m e m') (h : e.buildsIn k = true) :
    ¬ ReadsOnly m k o := by
  rintro (⟨hc, hst⟩ | hc)
  all_goals
    cases hs with
    | begin hc' hst' =>
      obtain rfl := of_decide_eq_true h
      simp_all
    | fail hc' =>
      obtain rfl := of_decide_eq_true h
      simp_all
    | finish _ hc' =>
      obtain rfl := of_decide_eq_true h
      simp_all
    | publish hc' =>
      obtain rfl := of_decide_eq_true h
      simp_all
    | _ => cases h

/-- A call that is entered where an index is kept goes on to read it. -/
theorem reads_step (hs : Step m e m') (hc : m.calls k = .entered)
    (hst : m.index.built.stored = some o) : m'.calls k = .entered ∨ m'.calls k = .found o := by
  have hother : ∀ {k' : Nat} {ph : Phase κ α}, m.calls k' = ph → ph ≠ .entered → k ≠ k' := by
    rintro k' ph rfl hne rfl
    exact hne hc
  cases hs with
  | enter h => exact .inl ((setCall_ne (hother h nofun)).trans hc)
  | @reuse k' o' h hst' =>
    obtain rfl : o' = o := Option.some.inj (hst'.symm.trans hst)
    exact setCall_of (P := fun ph => ph = .entered ∨ ph = .found o') (fun _ => .inr rfl) (.inl hc)
  | begin h hst' =>
    rw [hst'] at hst
    cases hst
  | fail h => exact .inl ((setCall_ne (hother h nofun)).trans hc)
  | finish _ h => exact .inl ((setCall_ne (hother h nofun)).trans hc)
  | publish h => exact .inl ((setCall_ne (hother h nofun)).trans hc)
  | get => exact .inl hc
  | isBuilt => exact .inl hc
  | reset => exact .inl hc
  | note => exact .inl hc

theorem readsOnly_step (hs : Step m e m') (h : ReadsOnly m k o) : ReadsOnly m' k o := by
  rcases h with ⟨hc, hst⟩ | hc
  · have hr : e.isReset = false := by
      cases hs with
      | reset hno => simpa [hc, Phase.inFlight] using hno k
      | _ => rfl
    exact (reads_step hs hc hst).imp_left fun h => ⟨h, stored_step hs hr hst⟩
  · rcases calls_step hs k with heq | hmove
    · exact .inr (heq.trans hc)
    · rw [hc] at hmove
      cases hmove

theorem readsOnly_run (hr : Run m past m') (h : ReadsOnly m k o) :
    ReadsOnly m' k o ∧ ∀ e ∈ past, e.buildsIn k = false := by
  induction hr with
  | refl => exact ⟨h, List.forall_mem_nil _⟩
  | step _ hs ih =>
    obtain ⟨hreads, hpast⟩ := ih
    exact ⟨readsOnly_step hs hreads, List.forall_mem_cons.mpr
      ⟨Bool.eq_false_iff.mpr fun he => not_readsOnly_of_buildsIn hs he hreads, hpast⟩⟩

end

end Building
end Deferral
