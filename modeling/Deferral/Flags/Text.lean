/-
# The text form of flags

A set of flags is written as the names of its flags in their fixed order,
joined by ` | `, and then its unnamed bits as one lower-case hexadecimal
number; the empty set is the empty text. Reading splits at `|` and trims the
parts: each is a name or a hexadecimal number of sixteen bits, and the first
part that is neither is reported.

Key definitions: `SiteFlags.text`, `SiteFlags.ofText?`, `FlagFault`.
-/
import Deferral.Flags
import Deferral.Text.Blank

namespace Deferral

/-- Why a text is not a set of flags. -/
inductive FlagFault where
  | emptyPart
  | badHex
  | unknownName
deriving DecidableEq

/-- The wording of a fault. -/
def FlagFault.message : FlagFault → String
  | .emptyPart => "encountered empty flag"
  | .badHex => "invalid hex flag"
  | .unknownName => "unrecognized named flag"

namespace Hex

/-- The digits, by value. -/
def digits : List Char :=
  ['0', '1', '2', '3', '4', '5', '6', '7', '8', '9', 'a', 'b', 'c', 'd', 'e', 'f']

/-- The lower-case digit of a value below sixteen. -/
def digit (n : Nat) : Char := digits.getD n '0'

/-- The value of a digit of either case. -/
def value? (c : Char) : Option Nat :=
  if '0' ≤ c ∧ c ≤ '9' then some (c.toNat - '0'.toNat)
  else if 'a' ≤ c ∧ c ≤ 'f' then some (c.toNat - 'a'.toNat + 10)
  else if 'A' ≤ c ∧ c ≤ 'F' then some (c.toNat - 'A'.toNat + 10)
  else none

/-- Reads digits after those already read, whose value is `acc`. -/
def readFrom (acc : Nat) : List Char → Option Nat
  | [] => some acc
  | c :: cs =>
    match value? c with
    | some v => readFrom (acc * 16 + v) cs
    | none => none

/-- The number that one or more digits write. -/
def read : List Char → Option Nat
  | [] => none
  | c :: cs => readFrom 0 (c :: cs)

/-- The digits of a number below `16 ^ 4`, without leading zeros. -/
def write (n : Nat) : List Char :=
  let rest := [digit (n % 16)]
  if n < 16 then rest
  else
    let rest := digit (n / 16 % 16) :: rest
    if n < 256 then rest
    else
      let rest := digit (n / 256 % 16) :: rest
      if n < 4096 then rest else digit (n / 4096 % 16) :: rest

end Hex

namespace SiteFlags

/-- The flags without a name. -/
def unnamed (f : SiteFlags) : SiteFlags := f.difference all

/-- The parts of the text form: names, then the unnamed bits. -/
def parts (f : SiteFlags) : List String :=
  ((named.filter fun n => f.contains n.2).map (·.1)) ++
    if f.unnamed.isEmpty then []
    else [String.ofList ('0' :: 'x' :: Hex.write f.unnamed.bits.toNat)]

/-- The text form. -/
def text (f : SiteFlags) : String := String.intercalate " | " f.parts

/-- Reads the digits after `0x`, which may have a sign `+`. -/
def ofHex? (digits : List Char) : Except FlagFault SiteFlags :=
  let unsigned :=
    match digits with
    | '+' :: rest => rest
    | rest => rest
  match Hex.read unsigned with
  | some n => if n < 65536 then .ok ⟨UInt16.ofNat n⟩ else .error .badHex
  | none => .error .badHex

/-- Reads one trimmed part of a flag text. -/
def ofPart? (part : List Char) : Except FlagFault SiteFlags :=
  match part with
  | [] => .error .emptyPart
  | '0' :: 'x' :: digits => ofHex? digits
  | name =>
    match named.find? fun n => n.1.toList == name with
    | some n => .ok n.2
    | none => .error .unknownName

/-- Adds the flags of each part to those already read; the first bad part decides. -/
def ofParts? (acc : SiteFlags) : List (List Char) → Except FlagFault SiteFlags
  | [] => .ok acc
  | part :: rest =>
    match ofPart? (Text.trim part) with
    | .ok f => ofParts? (acc.union f) rest
    | .error e => .error e

/-- Reads the text form, given as characters. -/
def ofChars? (cs : List Char) : Except FlagFault SiteFlags :=
  if Text.trim cs = [] then .ok empty else ofParts? empty (Text.splitOn '|' cs)

/-- Reads the text form. A blank text is the empty set. -/
def ofText? (s : String) : Except FlagFault SiteFlags := ofChars? s.toList

end SiteFlags
end Deferral
