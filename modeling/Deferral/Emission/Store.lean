/-
# Emitted methods

A store keeps one method per entity: the one recorded last, or else the one
reserved first, which has no body yet. By name it answers from an index that
is built on first use and does not follow the store until it is dropped; by
a search it answers from the store as it is.

Key definitions: `Emission.Store`, `Emission.Store.record`,
`Emission.Store.reserve`, `Emission.Store.lookup`,
`Emission.Store.single`.
-/
import Deferral.Emission.OnDemandIndex
import Deferral.Emission.Signature

namespace Deferral
namespace Emission

/-- A method with the instructions of its body, once it is emitted. -/
structure Method where
  signature : Signature
  body : Option (List String)
deriving DecidableEq

/-- The place of the method is reserved, and nothing has been emitted yet. -/
def Method.isReserved (m : Method) : Bool := m.body.isNone

/-- The methods, one per entity in the order in which the entities came, and their index by display
name. -/
structure Store where
  methods : List (Nat × Method)
  byName : OnDemandIndex String Method

/-- Why a search for a single method fails. -/
inductive SearchFailure where
  | notFound
  | ambiguous (count : Nat)
deriving DecidableEq

/-- The wording of a failed search. -/
def SearchFailure.message : SearchFailure → String
  | .notFound => "no emitted method matches"
  | .ambiguous count => s!"{count} emitted methods match, expected exactly one"

/-- Puts a method under an entity, in the place of the one that was there. -/
def putMethod (m : Method) : List (Nat × Method) → List (Nat × Method)
  | [] => [(m.signature.entity, m)]
  | e :: rest =>
    if e.1 = m.signature.entity then (e.1, m) :: rest else e :: putMethod m rest

namespace Store

/-- No methods. -/
def empty : Store := ⟨[], .empty⟩

/-- The number of entities with a method. -/
def size (s : Store) : Nat := s.methods.length

/-- The method of an entity. -/
def get? (s : Store) (entity : Nat) : Option Method := s.methods.lookup entity

/-- Records the body of a method; it takes the place of what was there. -/
def record (s : Store) (signature : Signature) (body : List String) : Store :=
  { s with methods := putMethod ⟨signature, some body⟩ s.methods }

/-- Reserves the place of a method, unless there is one. -/
def reserve (s : Store) (signature : Signature) : Store :=
  match s.get? signature.entity with
  | some _ => s
  | none => { s with methods := s.methods ++ [(signature.entity, ⟨signature, none⟩)] }

/-- An entry of the index by name: a method without a body takes its name and has no value. -/
def nameEntry (m : Method) : String × Option Method :=
  (m.signature.displayName, if m.isReserved then none else some m)

/-- The entries from which the index by name is built. -/
def snapshot (s : Store) : List (String × Option Method) := s.methods.map fun e => nameEntry e.2

/-- The index by name. -/
def nameIndex (s : Store) : SharedIndex String Method × Store :=
  let (ix, byName) := s.byName.demand s.snapshot
  (ix, { s with byName })

/-- The method with this display name, if exactly one method has it and it has a body. -/
def lookup (s : Store) (name : String) : Option Method × Store :=
  let (ix, s) := s.nameIndex
  (ix.value.get? name, s)

/-- The body of the method with this display name. -/
def body (s : Store) (name : String) : Option (List String) × Store :=
  let (m, s) := s.lookup name
  (m.bind (·.body), s)

/-- The only method whose signature satisfies `wanted`. -/
def single (s : Store) (wanted : Signature → Bool) : Except SearchFailure Method :=
  match s.methods.filter fun e => wanted e.2.signature with
  | [] => .error .notFound
  | [e] => .ok e.2
  | found => .error (.ambiguous found.length)

/-- Drops the index by name; the next use builds it from what is there then. -/
def dropIndex (s : Store) : Store := { s with byName := s.byName.drop.2 }

end Store

/-! ### Searching by description -/

/-- What a signature is searched by; what is absent is not asked for. -/
structure Criteria where
  name : Option String
  returns : Option String
  kind : Option MethodKind
  entity : Option Nat
  /-- The number of parameters. -/
  params : Option Nat
  /-- Some container has this name. -/
  container : Option String

/-- The signature satisfies all that is asked for. -/
def Criteria.admits (c : Criteria) (s : Signature) : Bool :=
  c.name.all (· == s.name) && c.returns.all (· == s.returns) && c.kind.all (· == s.kind) &&
    c.entity.all (· == s.entity) && c.params.all (· == s.params.length) &&
    c.container.all s.containers.contains

/-! ### Steps -/

/-- What is done with a store. -/
inductive StoreStep where
  | record (signature : Signature) (body : List String)
  | reserve (signature : Signature)
  /-- Several threads record methods; those of one entity are all the same. -/
  | recordAll (methods : List (Signature × List String))
  | dropIndex
  | get (entity : Nat)
  | lookup (name : String)
  | body (name : String)
  | byName
  | single (criteria : Criteria)

/-- What a step answers. -/
inductive StoreAnswer where
  | nothing
  | method (m : Option Method)
  | body (instructions : Option (List String))
  | index (ix : SharedIndex String Method)
  | found (result : Except SearchFailure Method)

namespace Store

/-- Performs a step. -/
def perform (s : Store) : StoreStep → StoreAnswer × Store
  | .record signature body => (.nothing, s.record signature body)
  | .reserve signature => (.nothing, s.reserve signature)
  | .recordAll methods => (.nothing, methods.foldl (fun s m => s.record m.1 m.2) s)
  | .dropIndex => (.nothing, s.dropIndex)
  | .get entity => (.method (s.get? entity), s)
  | .lookup name =>
    let (m, s) := s.lookup name
    (.method m, s)
  | .body name =>
    let (instructions, s) := s.body name
    (.body instructions, s)
  | .byName =>
    let (ix, s) := s.nameIndex
    (.index ix, s)
  | .single criteria => (.found (s.single criteria.admits), s)

end Store
end Emission
end Deferral
