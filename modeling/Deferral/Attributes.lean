/-
# Attributes of program entities

What the attributes of an entity say once they are known: whether and how it
is deprecated, and whether it is experimental.

Key definitions: `EntityKind`, `Deprecation`, `Attributes`.
-/

namespace Deferral

/-- What an entity is. -/
inductive EntityKind where
  | namespaceKind
  | type
  | method
  | operator
  | field
  | property
  | event
deriving DecidableEq, Inhabited

namespace EntityKind

/-- The word for the kind, in messages and in JSON. -/
def word : EntityKind → String
  | namespaceKind => "namespace"
  | type => "type"
  | method => "method"
  | operator => "operator"
  | field => "field"
  | property => "property"
  | event => "event"

/-- The kinds, in the order in which they are listed. -/
def list : List EntityKind := [namespaceKind, type, method, operator, field, property, event]

end EntityKind

/-- Which attribute marks an entity as deprecated; it changes the wording alone. -/
inductive DeprecationKind where
  | deprecated
  | obsolete
deriving DecidableEq, Inhabited

namespace DeprecationKind

/-- The adjective for the kind, in messages and in JSON. -/
def word : DeprecationKind → String
  | deprecated => "deprecated"
  | obsolete => "obsolete"

/-- The kinds, in the order in which they are listed. -/
def list : List DeprecationKind := [deprecated, obsolete]

end DeprecationKind

/-- How an entity is deprecated. -/
structure Deprecation where
  message : Option String
  /-- What to use in its place. -/
  replacement : Option String
  /-- References are errors and not warnings. -/
  isError : Bool
  kind : DeprecationKind
deriving DecidableEq

/-- A deprecation that says nothing more. -/
def Deprecation.plain : Deprecation := ⟨none, none, false, .deprecated⟩

/-- The attributes of an entity. -/
structure Attributes where
  deprecation : Option Deprecation
  experimental : Bool
deriving DecidableEq

/-- Neither deprecated nor experimental. -/
def Attributes.plain : Attributes := ⟨none, false⟩

end Deferral
