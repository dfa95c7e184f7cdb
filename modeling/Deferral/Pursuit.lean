/-
# Forcing completion until a reference is decided

While the standing of a reference is pending, its candidate is forced
to completion, and its containers too when they leave it ambiguous. A round
that leaves as many entities unfinished as before is a stall: if the calling
thread is completing an entity involved, the reference stays undecided here;
otherwise the host has broken its promise. Each round but the last lowers
the number of unfinished entities, so the loop ends whatever forcing does.

Key definitions: `Host`, `Pursuit`, `pursueFrom`, `pursue`.
-/
import Deferral.Standing

namespace Deferral

/-- What the loop tells an observer. -/
inductive Notice where
  /-- A round of forcing begins. -/
  | forcing (round : Nat) (c : Standing)
  /-- The reference is left undecided. -/
  | undecided (c : Standing)
deriving DecidableEq

/-- The owner of the entities, as the loop sees it: a look at all of them, a demand to complete
one, and an observer. -/
structure Host (m : Type → Type) (ε : Type) where
  view : m (View ε)
  force : ε → m Unit
  announce : Notice → m Unit

/-- How a pursuit ends. -/
inductive Ending where
  | decided (t : Decision)
  /-- The calling thread is completing an entity involved. -/
  | undecided
  /-- A round completed nothing, and no entity involved is being completed here. -/
  | stalled (c : Standing)
deriving DecidableEq

/-- The ending of a pursuit, and the rounds of forcing it took. -/
structure Pursuit where
  ending : Ending
  rounds : Nat
deriving DecidableEq

variable {m : Type → Type} [Monad m] {ε : Type}

/-- Forces the entities in order. -/
def Host.forceAll (h : Host m ε) : List ε → m Unit
  | [] => pure ()
  | e :: es => do
    h.force e
    h.forceAll es

/-- One round: the candidate, and the containers when they leave the reference ambiguous. -/
def Host.forceRound (h : Host m ε) (r : Reference ε) (c : Standing) : m Unit := do
  h.force r.candidate
  if c = .pendingAmbiguous then h.forceAll r.containers

/-- Pursues a decision after `rounds` rounds, the last of which left `remaining` entities
unfinished. -/
def pursueFrom (h : Host m ε) (rule : View ε → Reference ε → Standing) (r : Reference ε)
    (remaining rounds : Nat) : m Pursuit := do
  let c := rule (← h.view) r
  match c.decision? with
  | some t => return ⟨.decided t, rounds⟩
  | none =>
    h.announce (.forcing (rounds + 1) c)
    h.forceRound r c
    let after ← h.view
    if unfinishedCount after r < remaining then
      pursueFrom h rule r (unfinishedCount after r) (rounds + 1)
    else if involvesCompletingHere after r then
      h.announce (.undecided c)
      return ⟨.undecided, rounds + 1⟩
    else return ⟨.stalled c, rounds + 1⟩
termination_by remaining

/-- Forces completion until the rule gives a decision or a round stalls. -/
def pursue (h : Host m ε) (rule : View ε → Reference ε → Standing) (r : Reference ε) :
    m Pursuit := do
  pursueFrom h rule r (unfinishedCount (← h.view) r) 0

end Deferral
