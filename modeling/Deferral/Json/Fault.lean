/-
# Faults of a document

A document is faulty when its text is not JSON, and unfit when a value in it
is not what is expected there. Reading stops at the first fault of either
sort.

Key definitions: `Json.Misfit`, `Json.Fault`, `Json.Misfit.message`.
-/
import Deferral.Json.Doc
import Deferral.Number.Shortest
import Deferral.Text.Quoted

namespace Deferral
namespace Json

/-- What was found in place of something else. -/
inductive Found where
  | null
  | bool (b : Bool)
  | integer (n : Int)
  | float (negative : Bool) (magnitude : Binary64)
  | string (s : String)
  | sequence
  | map
deriving DecidableEq

/-- What is said about something that was found. -/
def Found.text : Found → String
  | .null => "null"
  | .bool true => "boolean `true`"
  | .bool false => "boolean `false`"
  | .integer n => "integer `" ++ toString n ++ "`"
  | .float negative magnitude =>
    "floating point `" ++ (if negative then "-" else "") ++ magnitude.text ++ "`"
  | .string s => "string " ++ Text.quoted s
  | .sequence => "sequence"
  | .map => "map"

/-- Why a value does not fit. -/
inductive Misfit where
  | invalidType (found : Found) (expected : String)
  | invalidValue (found : Found) (expected : String)
  | invalidLength (length : Nat) (expected : String)
  | missingField (name : String)
  | duplicateField (name : String)
  | unknownField (name : String) (known : List String)
  | unknownVariant (name : String) (known : List String)
  | badFlags (fault : FlagFault)
deriving DecidableEq

/-- A name as it is quoted in a message. -/
def ticked (name : String) : String := "`" ++ name ++ "`"

/-- The names that are known, as they are listed in a message. -/
def oneOf : List String → String
  | [a] => ticked a
  | [a, b] => ticked a ++ " or " ++ ticked b
  | names => "one of " ++ String.intercalate ", " (names.map ticked)

/-- The wording of a misfit. -/
def Misfit.message : Misfit → String
  | .invalidType found expected => "invalid type: " ++ found.text ++ ", expected " ++ expected
  | .invalidValue found expected => "invalid value: " ++ found.text ++ ", expected " ++ expected
  | .invalidLength length expected => s!"invalid length {length}, expected " ++ expected
  | .missingField name => "missing field " ++ ticked name
  | .duplicateField name => "duplicate field " ++ ticked name
  | .unknownField name known => "unknown field " ++ ticked name ++ ", expected " ++ oneOf known
  | .unknownVariant name known =>
    "unknown variant " ++ ticked name ++ ", expected " ++ oneOf known
  | .badFlags fault => fault.message

/-- The first fault of a document. -/
inductive Fault where
  | text (fault : TextFault)
  | unfit (misfit : Misfit)
deriving DecidableEq

/-- What stands in a document where something else is expected. -/
def Doc.found : Doc → Except TextFault Found
  | .null => .ok .null
  | .bool b => .ok (.bool b)
  | .number (.natural n) => .ok (.integer n)
  | .number (.negative n) => .ok (.integer (-n))
  | .number (.float negative magnitude) => .ok (.float negative magnitude)
  | .hugeNumber => .error .illFormed
  | .string s => .ok (.string s)
  | .loneSurrogate => .error .illFormed
  | .array _ => .ok .sequence
  | .object _ => .ok .map
  | .missing => .error .truncated
  | .brokenString looked _ => .error looked
  | .broken looked _ => .error looked

/-- The fault of a document that is not what is expected. -/
def Doc.misfit (d : Doc) (expected : String) : Fault :=
  match d.found with
  | .ok found => .unfit (.invalidType found expected)
  | .error fault => .text fault

end Json
end Deferral
