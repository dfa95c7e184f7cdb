/-
# Decoding documents

A decoder takes what it expects from a document or gives the first fault. A
record is read from an object, whose keys come in any order, or from an array
of its fields in their order. A variant is read from its name, or from an
object with its name as the only key and null as the value.

Key definitions: `Json.Doc.asVariant`, `Json.Doc.asList`, `Json.RecordShape`,
`Json.RecordShape.decode`.
-/
import Deferral.Json.Fault

namespace Deferral
namespace Json

/-- Takes a value of type `α` from a document. -/
abbrev Decoder (α : Type) := Doc → Except Fault α

namespace Doc

/-- A truth value. -/
def asBool : Decoder Bool
  | .bool b => .ok b
  | d => .error (d.misfit "a boolean")

/-- A string, described as `expected`. -/
def asText (expected : String) : Decoder String
  | .string s => .ok s
  | d => .error (d.misfit expected)

/-- A string, or null where there is none. -/
def asOptionalText : Decoder (Option String)
  | .null => .ok none
  | .string s => .ok (some s)
  | d => .error (d.misfit "a string")

/-- A natural number of 32 bits. -/
def asNatural32 : Decoder Nat
  | .number (.natural n) =>
    if n < 0x100000000 then .ok n else .error (.unfit (.invalidValue (.integer n) "u32"))
  | .number (.negative n) => .error (.unfit (.invalidValue (.integer (-n)) "u32"))
  | d => .error (d.misfit "u32")

/-- Null, which carries nothing. -/
def asUnit : Decoder Unit
  | .null => .ok ()
  | d => .error (d.misfit "unit")

/-- A set of flags in its text form. -/
def asFlags (d : Doc) : Except Fault SiteFlags :=
  match d.asText "a string value of `|` separated flags" with
  | .ok s =>
    match SiteFlags.ofText? s with
    | .ok flags => .ok flags
    | .error fault => .error (.unfit (.badFlags fault))
  | .error fault => .error fault

end Doc

/-! ### Variants -/

/-- The variant with this name. -/
def findVariant {α : Type} (variants : List (String × α)) (name : String) : Except Fault α :=
  match variants.lookup name with
  | some a => .ok a
  | none => .error (.unfit (.unknownVariant name (variants.map (·.1))))

/-- What follows the only member of an object: its closing brace. -/
def Members.close? : Members → Except Fault Unit
  | .close => .ok ()
  | .cut fault => .error (.text fault)
  | _ => .error (.text .illFormed)

/-- One of several variants, by name. -/
def Doc.asVariant {α : Type} (variants : List (String × α)) : Decoder α
  | .string s => findVariant variants s
  | .brokenString looked _ => .error (.text looked)
  | .missing => .error (.text .truncated)
  | .object (.member (some name) value rest) =>
    match findVariant variants name, value.asUnit, rest.close? with
    | .error fault, _, _ => .error fault
    | _, .error fault, _ => .error fault
    | _, _, .error fault => .error fault
    | .ok a, .ok _, .ok _ => .ok a
  | .object (.brokenKey looked _) => .error (.text looked)
  | .object .missingKey => .error (.text .truncated)
  | _ => .error (.text .illFormed)

/-! ### Lists -/

/-- The values of items, each decoded in turn. -/
def Items.decode {α : Type} (item : Decoder α) : Items → Except Fault (List α)
  | .close => .ok []
  | .cut fault => .error (.text fault)
  | .more value rest =>
    match item value with
    | .error fault => .error fault
    | .ok a =>
      match rest.decode item with
      | .error fault => .error fault
      | .ok as => .ok (a :: as)

/-- A list of values. -/
def Doc.asList {α : Type} (item : Decoder α) : Decoder (List α)
  | .array items => items.decode item
  | d => .error (d.misfit "a sequence")

/-! ### Records -/

/-- A field of a record, while the record is gathered in a value of type `ρ`. -/
structure Field (ρ : Type) where
  name : String
  /-- The field has been read. -/
  given : ρ → Bool
  read : Doc → ρ → Except Fault ρ

/-- How a record of type `α` is gathered in a value of type `ρ`. -/
structure RecordShape (ρ α : Type) where
  /-- The name of the record in messages. -/
  name : String
  fields : List (Field ρ)
  /-- Nothing has been read. -/
  blank : ρ
  /-- A key that is no field is refused; elsewhere its value is skipped. -/
  closed : Bool
  /-- An array may end before all fields have come. -/
  short : Bool
  /-- The record, or the first field that is missing. -/
  finish : ρ → Except Fault α

namespace RecordShape

variable {ρ α : Type} (s : RecordShape ρ α)

/-- The record as it is described where something else is found. -/
def expected : String := "struct " ++ s.name

/-- The record with the number of its fields. -/
def expectedLength : String :=
  let n := s.fields.length
  s.expected ++ s!" with {n} element" ++ if n = 1 then "" else "s"

/-- Gathers members. The first fault in the order of the text decides. -/
def readMembers : ρ → Members → Except Fault ρ
  | r, .close => .ok r
  | _, .cut fault => .error (.text fault)
  | _, .missingKey => .error (.text .truncated)
  | _, .badKey => .error (.text .illFormed)
  | _, .brokenKey looked _ => .error (.text looked)
  | _, .member none _ _ => .error (.text .illFormed)
  | r, .member (some key) value rest =>
    match s.fields.find? (·.name == key) with
    | some field =>
      if field.given r then .error (.unfit (.duplicateField key))
      else
        match field.read value r with
        | .ok r => readMembers r rest
        | .error fault => .error fault
    | none =>
      if s.closed then .error (.unfit (.unknownField key (s.fields.map (·.name))))
      else
        match value.skip with
        | .ok _ => readMembers r rest
        | .error fault => .error (.text fault)

/-- Gathers items, which are the given fields in order, after `n` that have been read. -/
def readItems : List (Field ρ) → Nat → ρ → Items → Except Fault ρ
  | [], _, r, .close => .ok r
  | _ :: _, n, r, .close =>
    if s.short then .ok r else .error (.unfit (.invalidLength n s.expectedLength))
  | _, _, _, .cut fault => .error (.text fault)
  | [], _, _, .more _ _ => .error (.text .illFormed)
  | field :: fields, n, r, .more value rest =>
    match field.read value r with
    | .ok r => readItems fields (n + 1) r rest
    | .error fault => .error fault

/-- Decodes a record. -/
def decode : Decoder α
  | .object members =>
    match s.readMembers s.blank members with
    | .ok r => s.finish r
    | .error fault => .error fault
  | .array items =>
    match s.readItems s.fields 0 s.blank items with
    | .ok r => s.finish r
    | .error fault => .error fault
  | d => .error (d.misfit s.expected)

end RecordShape

/-- The value of a field that must be there. -/
def require {α : Type} (name : String) : Option α → Except Fault α
  | some a => .ok a
  | none => .error (.unfit (.missingField name))

end Json
end Deferral
