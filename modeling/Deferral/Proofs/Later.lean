/-
# What stays as it is

Whatever an action does, and however deep it nests, it leaves behind a later world: an entity that
was complete or in progress when it began is as it was, one that was not started is complete or
again not started, a diagnostic still has its computation and its memoized result, a bag still
begins with its entries. In between, entities that were not started may be in progress.

Key definitions: `Binding.Later`, `Session.Cell.Later`, `Session.World.Later`.
Key theorems: `Session.World.Later.trans`, `Session.World.Later.completing`.
-/
import Deferral.Session.World

namespace Deferral

/-! ### Bindings -/

/-- What an action makes of a binding: it stays, unless no run of the binder was active, and then
none is active in the end. -/
inductive Binding.Later (b : Binding) : Binding → Prop where
  | same : b.Later b
  | settled {b' : Binding} (idle : b.completion = .notStarted)
      (settled : ∀ t, b'.completion ≠ .inProgress t) : b.Later b'

namespace Binding.Later

variable {b b' b'' : Binding}

theorem trans (h : b.Later b') (h' : b'.Later b'') : b.Later b'' := by
  cases h with
  | same => exact h'
  | settled hi hs =>
    cases h' with
    | same => exact .settled hi hs
    | settled _ hs' => exact .settled hi hs'

theorem eq_of_ne (h : b.Later b') (hb : b.completion ≠ .notStarted) : b' = b := by
  cases h with
  | same => rfl
  | settled hi _ => exact absurd hi hb

theorem inProgress_iff (h : b.Later b') (t : Thread) :
    b'.completion = .inProgress t ↔ b.completion = .inProgress t := by
  cases h with
  | same => rfl
  | settled hi hs => simp [hi, hs t]

theorem isFinished (h : b.Later b') (hb : b.isFinished = true) : b' = b := by
  refine h.eq_of_ne fun hn => ?_
  simp [Binding.isFinished, hn, Completion.data?] at hb

end Binding.Later

namespace Session

/-! ### Diagnostics -/

/-- What an action makes of a diagnostic: the computation stays, and a result that is memoized. -/
def Cell.Later : Cell → Cell → Prop
  | .known o, c => c = .known o
  | .deferred computation slot _, c =>
    ∃ slot' calls', c = .deferred computation slot' calls' ∧
      ∀ o, slot.stored = some o → slot'.stored = some o

namespace Cell.Later

variable {c c' c'' : Cell}

theorem refl : ∀ c : Cell, c.Later c
  | .known _ => rfl
  | .deferred _ slot calls => ⟨slot, calls, rfl, fun _ h => h⟩

theorem trans (h : c.Later c') (h' : c'.Later c'') : c.Later c'' := by
  cases c with
  | known o =>
    subst h
    exact h'
  | deferred computation slot calls =>
    obtain ⟨slot', calls', rfl, hs⟩ := h
    obtain ⟨slot'', calls'', rfl, hs'⟩ := h'
    exact ⟨slot'', calls'', rfl, fun o ho => hs' o (hs o ho)⟩

theorem result (h : c.Later c') {o : Shared Finding} (ho : c.result? = some o) :
    c'.result? = some o := by
  cases c with
  | known held =>
    rw [h]
    exact ho
  | deferred comp slot calls =>
    obtain ⟨slot', calls', rfl, hslot⟩ := h
    exact hslot o ho

end Cell.Later

/-! ### Worlds -/

namespace World

/-- What an action makes of a world, whether it ends or breaks off. -/
structure Later (w w' : World) : Prop where
  bindings : ∀ e, (w.bindings e).Later (w'.bindings e)
  cells : ∀ (i : Nat) (c : Cell), w.cells[i]? = some c → ∃ c', w'.cells[i]? = some c' ∧ c.Later c'
  bags : ∀ b, w.bags b <+: w'.bags b
  nextThread : w.nextThread ≤ w'.nextThread

namespace Later

variable {w w' w'' : World}

theorem refl (w : World) : w.Later w :=
  ⟨fun _ => .same, fun _ c h => ⟨c, h, .refl c⟩, fun _ => List.prefix_rfl, Nat.le_refl _⟩

theorem trans (h : w.Later w') (h' : w'.Later w'') : w.Later w'' where
  bindings e := (h.bindings e).trans (h'.bindings e)
  cells i c hc := by
    obtain ⟨c', hc', hl⟩ := h.cells i c hc
    obtain ⟨c'', hc'', hl'⟩ := h'.cells i c' hc'
    exact ⟨c'', hc'', hl.trans hl'⟩
  bags b := (h.bags b).trans (h'.bags b)
  nextThread := Nat.le_trans h.nextThread h'.nextThread

/-- A change that touches neither entities nor diagnostics nor bags. -/
theorem of_eq (hb : w'.bindings = w.bindings) (hc : w'.cells = w.cells) (hg : w'.bags = w.bags)
    (ht : w.nextThread ≤ w'.nextThread) : w.Later w' where
  bindings _ := hb ▸ .same
  cells _ c h := ⟨c, hc ▸ h, .refl c⟩
  bags _ := hg ▸ List.prefix_rfl
  nextThread := ht

end Later

theorem later_addCell (w : World) (c : Cell) : w.Later (w.addCell c) where
  bindings _ := .same
  cells i d h := by
    refine ⟨d, ?_, .refl d⟩
    obtain ⟨hi, -⟩ := List.getElem?_eq_some_iff.mp h
    simpa [addCell, List.getElem?_append_left hi] using h
  bags _ := List.prefix_rfl
  nextThread := Nat.le_refl _

theorem later_pushCell (w : World) (bag : String) (cell : Nat) : w.Later (w.pushCell bag cell) where
  bindings _ := .same
  cells _ c h := ⟨c, h, .refl c⟩
  bags b := by
    by_cases h : b = bag
    · simp [pushCell, h]
    · simp [pushCell, h]
  nextThread := Nat.le_refl _

theorem later_setCell {w : World} {i : Nat} {c c' : Cell} (h : w.cells[i]? = some c)
    (hl : c.Later c') : w.Later (w.setCell i c') where
  bindings _ := .same
  cells j d hd := by
    obtain ⟨hi, -⟩ := List.getElem?_eq_some_iff.mp h
    by_cases hj : i = j
    · subst hj
      obtain rfl : c = d := Option.some.inj (h.symm.trans hd)
      exact ⟨c', by simp [setCell, hi], hl⟩
    · exact ⟨d, by simpa [setCell, List.getElem?_set_ne hj] using hd, .refl d⟩
  bags _ := List.prefix_rfl
  nextThread := Nat.le_refl _

theorem updateBinding_self (w : World) (e : Nat) (f : Binding → Binding) :
    (w.updateBinding e f).bindings e = f (w.bindings e) := by
  simp [updateBinding]

theorem updateBinding_ne (w : World) {e d : Nat} (h : d ≠ e) (f : Binding → Binding) :
    (w.updateBinding e f).bindings d = w.bindings d := by
  simp [updateBinding, h]

/-- A run of a binder from its start to its end, with all that happens in between: `finish` is what
ends it, whether it stores the attributes or undoes the start. -/
theorem Later.completing {w w' : World} {e : Nat} {t : Thread} {finish : Binding → Binding}
    (hidle : (w.bindings e).completion = .notStarted)
    (hrun : (w.updateBinding e (·.start t)).Later w')
    (hend : ∀ b t, (finish b).completion ≠ .inProgress t) :
    w.Later (w'.updateBinding e finish) where
  bindings d := by
    by_cases hd : d = e
    · subst hd
      rw [updateBinding_self]
      exact .settled hidle (hend _)
    · have h := hrun.bindings d
      rw [updateBinding_ne w hd] at h
      rwa [updateBinding_ne w' hd]
  cells := hrun.cells
  bags := hrun.bags
  nextThread := hrun.nextThread

end World
end Session
end Deferral
