/-
# What holds in every world

At each moment of a session, inside binders and computations as well as between them, the
attributes that an entity is complete with are its own, whoever is completing an entity is a thread
that has been started, and a check that is resolved has been resolved rightly: its memoized result
is what the check comes to once every entity is finished. Each change that a session makes to its
world keeps this.

Key definitions: `Session.World.Sound`, `Session.Cell.Right`.
Key theorems: `Session.World.sound_initial`, `Session.World.Sound.view_shows`.
-/
import Deferral.Proofs.Later
import Deferral.Proofs.Verdict

namespace Deferral
namespace Session

/-- The result memoized for a check is what the check comes to. -/
def Cell.Right (p : Program) : Cell → Prop
  | .deferred (.check rule candidate ctx opts) slot _ =>
    ∀ o, slot.stored = some o → p.Finds rule candidate ctx opts o.value
  | _ => True

theorem Cell.right_of_empty (p : Program) (c : Computation) :
    (Cell.deferred c .empty 0).Right p := by
  cases c <;> simp [Cell.Right, WriteOnce.empty]

theorem Cell.Right.of_stored {p : Program} {c : Computation} {slot slot' : WriteOnce Finding}
    {calls calls' : Nat} (h : (Cell.deferred c slot calls).Right p)
    (hs : slot'.stored = slot.stored) : (Cell.deferred c slot' calls').Right p := by
  cases c with
  | check rule candidate ctx opts => exact fun o ho => h o (hs ▸ ho)
  | constant f => trivial
  | scripted name plan during => trivial

namespace World

/-- The thread has been started. -/
def Hosts (w : World) (t : Thread) : Prop := mainThread ≤ t ∧ t < w.nextThread

theorem Hosts.later {w w' : World} {t : Thread} (h : w.Hosts t) (hl : w.Later w') : w'.Hosts t :=
  ⟨h.1, Nat.lt_of_lt_of_le h.2 hl.nextThread⟩

/-- Before a second thread is started, there is only the main thread. -/
theorem hosts_iff_of_single {w : World} {t : Thread} (h : w.nextThread = mainThread + 1) :
    w.Hosts t ↔ t = mainThread := by
  rw [Hosts, h]
  constructor
  · rintro ⟨hle, hlt⟩
    exact Nat.le_antisymm (Nat.le_of_lt_succ hlt) hle
  · rintro rfl
    exact ⟨Nat.le_refl _, Nat.lt_succ_self _⟩

/-- What holds in every world of a session. -/
structure Sound (p : Program) (w : World) : Prop where
  complete : ∀ e d, (w.bindings e).completion = .complete d → d = (p.entity e).attributes
  owner : ∀ e t, (w.bindings e).completion = .inProgress t → w.Hosts t
  cells : ∀ c ∈ w.cells, c.Right p

theorem sound_initial (p : Program) : (World.initial p).Sound p where
  complete e d h := by
    simp only [initial] at h
    split at h
    · exact (Completion.complete.inj h).symm
    · cases h
  owner e t h := by
    simp only [initial] at h
    split at h <;> cases h
  cells c h := by cases h

namespace Sound

variable {p : Program} {w w' : World}

/-- A change that touches neither entities nor diagnostics. -/
theorem of_eq (h : w.Sound p) (hb : w'.bindings = w.bindings) (hc : w'.cells = w.cells)
    (ht : w.nextThread ≤ w'.nextThread) : w'.Sound p where
  complete e d hd := h.complete e d (hb ▸ hd)
  owner e t hp := by
    obtain ⟨h1, h2⟩ := h.owner e t (hb ▸ hp)
    exact ⟨h1, Nat.lt_of_lt_of_le h2 ht⟩
  cells c hm := h.cells c (hc ▸ hm)

theorem addCell (h : w.Sound p) {c : Cell} (hc : c.Right p) : (w.addCell c).Sound p where
  complete := h.complete
  owner := h.owner
  cells d hd := by
    rcases List.mem_append.mp hd with hd | hd
    · exact h.cells d hd
    · exact List.mem_singleton.mp hd ▸ hc

theorem setCell (h : w.Sound p) (i : Nat) {c : Cell} (hc : c.Right p) :
    (w.setCell i c).Sound p where
  complete := h.complete
  owner := h.owner
  cells d hd := by
    rcases List.mem_or_eq_of_mem_set hd with hd | rfl
    · exact h.cells d hd
    · exact hc

/-- A step of a binding, to the attributes of the entity or into the hands of a thread. -/
theorem updateBinding (h : w.Sound p) (e : Nat) {f : Binding → Binding}
    (hd : ∀ d, (f (w.bindings e)).completion = .complete d → d = (p.entity e).attributes)
    (ht : ∀ t, (f (w.bindings e)).completion = .inProgress t → w.Hosts t) :
    (w.updateBinding e f).Sound p where
  complete i d hi := by
    by_cases hie : i = e
    · subst hie
      exact hd d (updateBinding_self w i f ▸ hi)
    · exact h.complete i d (updateBinding_ne w hie f ▸ hi)
  owner i t hi := by
    by_cases hie : i = e
    · subst hie
      exact ht t (updateBinding_self w i f ▸ hi)
    · exact h.owner i t (updateBinding_ne w hie f ▸ hi)
  cells := h.cells

/-- A finished entity is seen as what it ends as. -/
theorem visible_eq (h : w.Sound p) {e : Nat} (hf : w.finished p e = true) :
    w.visible p e = p.final e := by
  cases hbeh : (p.entity e).behaviour with
  | source wrapped completed binder =>
    simp only [finished, hbeh, Binding.isFinished] at hf
    simp only [visible, Program.final, hbeh]
    cases hc : (w.bindings e).completion with
    | notStarted => simp [hc, Completion.data?] at hf
    | inProgress t => simp [hc, Completion.data?] at hf
    | complete d => simp [Completion.data?, h.complete e d hc]
  | stub needs here => simp only [visible, Program.final, hbeh, hf, if_true]
  | bare finished => simp only [visible, Program.final, hbeh]

theorem view_shows (h : w.Sound p) (me : Thread) : (w.view p me).Shows p.final := by
  intro e hf
  exact h.visible_eq hf

end Sound
end World
end Session
end Deferral
