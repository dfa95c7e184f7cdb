/-
# Where a reference stands

A reference to an entity is reportable, or it is not, or it cannot be told
yet because attributes are missing. Where it stands is seen without forcing
anything: from the candidate and the entities around the site as they are now. The
containers are looked at innermost first, and the first one that is
unfinished or marked decides.

Key definitions: `View`, `Reference`, `Standing`, `deprecationStanding`,
`experimentalStanding`, `unfinishedCount`.
-/
import Deferral.Attributes
import Deferral.Diagnostic
import Deferral.Policy

namespace Deferral

/-- What can be seen of each entity at one moment, from one thread. -/
structure View (ε : Type) where
  finished : ε → Bool
  /-- The thread that looks is completing the entity. -/
  completingHere : ε → Bool
  deprecation : ε → Option Deprecation
  experimental : ε → Bool

/-- The entity is seen to be deprecated. -/
def View.deprecated {ε : Type} (v : View ε) (e : ε) : Bool := (v.deprecation e).isSome

/-- A reference to `candidate` from a site that `containers` enclose, innermost first. -/
structure Reference (ε : Type) where
  candidate : ε
  containers : List ε
  flags : SiteFlags

/-- What can be told about a reference now. -/
inductive Standing where
  /-- Nothing is ever reported. -/
  | inapplicable
  | reportable
  /-- The candidate is unfinished, and the containers that matter are finished. -/
  | pendingCompletion
  /-- It depends on an unfinished container whether the site silences the reference. -/
  | pendingAmbiguous
deriving DecidableEq

/-- A standing that can be acted on. -/
inductive Decision where
  | inapplicable
  | reportable
deriving DecidableEq

namespace Decision

/-- The name of a decision. -/
def name : Decision → String
  | inapplicable => "Inapplicable"
  | reportable => "Reportable"

end Decision

namespace Standing

/-- The name of a standing. -/
def name : Standing → String
  | inapplicable => "Inapplicable"
  | reportable => "Reportable"
  | pendingCompletion => "PendingCompletion"
  | pendingAmbiguous => "PendingCompletionAmbiguousSuppression"

/-- The decision, unless something is pending. -/
def decision? : Standing → Option Decision
  | inapplicable => some .inapplicable
  | reportable => some .reportable
  | pendingCompletion => none
  | pendingAmbiguous => none

/-- Something is pending. -/
def isPending (c : Standing) : Bool := c.decision?.isNone

end Standing

variable {ε : Type}

/-- The first container that is unfinished or marked decides: the one leaves the reference
ambiguous, the other silences it. -/
def walkContainers (finished marked : ε → Bool) : List ε → Standing
  | [] => .reportable
  | c :: cs =>
    if !finished c then .pendingAmbiguous
    else if marked c then .inapplicable
    else walkContainers finished marked cs

/-- The standing of a reference whose candidate is unfinished; `decided` tells that no container
is awaited. -/
def pendingOn (decided : Bool) : Standing :=
  if decided then .pendingCompletion else .pendingAmbiguous

/-- The standing of a reference to a possibly deprecated entity. -/
def deprecationStanding (o : Options) (v : View ε) (r : Reference ε) : Standing :=
  if !v.finished r.candidate then
    pendingOn (!o.suppressInDeprecatedContainers || r.containers.all v.finished)
  else if !v.deprecated r.candidate then .inapplicable
  else if o.policy.verdict r.flags = .suppress then .inapplicable
  else if o.suppressInDeprecatedContainers then
    walkContainers v.finished v.deprecated r.containers
  else .reportable

/-- The standing of a use of a possibly experimental entity. An experimental container opts in
all that it encloses. -/
def experimentalStanding (v : View ε) (r : Reference ε) : Standing :=
  if !v.finished r.candidate then pendingOn (r.containers.all v.finished)
  else if !v.experimental r.candidate || r.flags.contains .suppressExperimental then .inapplicable
  else walkContainers v.finished v.experimental r.containers

/-- The unfinished entities that a reference involves; a candidate that also encloses the site
counts twice. -/
def unfinishedCount (v : View ε) (r : Reference ε) : Nat :=
  (r.candidate :: r.containers).countP fun e => !v.finished e

/-- The thread that looks is completing an entity that the reference involves. -/
def involvesCompletingHere (v : View ε) (r : Reference ε) : Bool :=
  (r.candidate :: r.containers).any v.completingHere

/-! ### The walk -/

@[simp] theorem walkContainers_nil (finished marked : ε → Bool) :
    walkContainers finished marked [] = .reportable := rfl

/-- A walk over finished containers is silenced exactly by a marked one. -/
theorem walkContainers_of_finished (finished marked : ε → Bool) :
    ∀ cs : List ε, (∀ c ∈ cs, finished c = true) →
      walkContainers finished marked cs = if cs.any marked then .inapplicable else .reportable
  | [], _ => rfl
  | c :: cs, h => by
    have hc : finished c = true := h c (by simp)
    have ih := walkContainers_of_finished finished marked cs fun x hx => h x (by simp [hx])
    cases hm : marked c <;> simp [walkContainers, hc, hm, ih]

end Deferral
