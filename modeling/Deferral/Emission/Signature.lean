/-
# Method signatures and their display names

The display name of a method is its qualified name with its type parameters
and the types of its parameters, so that overloads differ. A user-defined
operator also carries its return type in front. A conversion does not, so two
conversions that differ in nothing but their return type share a name.

Key definitions: `Emission.Signature`, `Emission.Signature.displayName`.
-/

namespace Deferral
namespace Emission

/-- What a method is. -/
inductive MethodKind where
  | ordinary
  | constructor
  | accessor
  | userOperator
  | conversion
deriving DecidableEq, Inhabited

/-- How a parameter is passed. -/
inductive Passing where
  | value
  | ref
  | out
  | params
  /-- The receiver of an extension method. -/
  | this
deriving DecidableEq, Inhabited

/-- What stands before the type of a parameter. -/
def Passing.marker : Passing → String
  | .value => ""
  | .ref => "ref "
  | .out => "out "
  | .params => "params "
  | .this => "this "

/-- A parameter. -/
structure Parameter where
  type : String
  mode : Passing
deriving DecidableEq

/-- A parameter as it stands in a display name. -/
def Parameter.display (p : Parameter) : String := p.mode.marker ++ p.type

/-- What is known about a method. -/
structure Signature where
  entity : Nat
  /-- The namespaces and types around it, outermost first. -/
  containers : List String
  name : String
  typeParams : List String
  params : List Parameter
  returns : String
  kind : MethodKind
deriving DecidableEq

namespace Signature

/-- The return type, where the name carries it. -/
def displayReturn (s : Signature) : String :=
  if s.kind = .userOperator then s.returns ++ " " else ""

/-- The containers, each with a point after it. -/
def displayContainers (s : Signature) : String := String.join (s.containers.map (· ++ "."))

/-- The type parameters in angle brackets, if there are any. -/
def displayTypeParams (s : Signature) : String :=
  if s.typeParams.isEmpty then "" else "<" ++ String.intercalate ", " s.typeParams ++ ">"

/-- The parameters in parentheses. -/
def displayParams (s : Signature) : String :=
  "(" ++ String.intercalate ", " (s.params.map (·.display)) ++ ")"

/-- The name under which a method is looked up. -/
def displayName (s : Signature) : String :=
  s.displayReturn ++ s.displayContainers ++ s.name ++ s.displayTypeParams ++ s.displayParams

end Signature
end Emission
end Deferral
