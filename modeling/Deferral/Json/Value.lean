/-
# JSON values and their text

A value is written without blanks, its members in the order in which they
come. In a string the quote, the backslash and the control characters are
escaped and all else stands as it is.

Key definitions: `Json.Value`, `Json.Value.print`, `Json.Value.text`.
-/
import Deferral.Flags.Text

namespace Deferral
namespace Json

/-- A JSON value. -/
inductive Value where
  | null
  | bool (b : Bool)
  | natural (n : Nat)
  | string (s : String)
  | array (items : List Value)
  | object (members : List (String × Value))

/-- A character as it stands in a JSON string. -/
def printChar (c : Char) : List Char :=
  if c = '"' then ['\\', '"']
  else if c = '\\' then ['\\', '\\']
  else if c = '\x08' then ['\\', 'b']
  else if c = '\x0c' then ['\\', 'f']
  else if c = '\n' then ['\\', 'n']
  else if c = '\r' then ['\\', 'r']
  else if c = '\t' then ['\\', 't']
  else if c.toNat < 0x20 then
    ['\\', 'u', '0', '0', Hex.digit (c.toNat / 16), Hex.digit (c.toNat % 16)]
  else [c]

/-- A string in quotes. -/
def printString (s : String) : List Char := '"' :: (s.toList.flatMap printChar ++ ['"'])

mutual

/-- The characters of a value. -/
def Value.print : Value → List Char
  | .null => ['n', 'u', 'l', 'l']
  | .bool true => ['t', 'r', 'u', 'e']
  | .bool false => ['f', 'a', 'l', 's', 'e']
  | .natural n => (toString n).toList
  | .string s => printString s
  | .array items => '[' :: (printItems items ++ [']'])
  | .object members => '\x7b' :: (printMembers members ++ ['\x7d'])

/-- The characters of items, with commas between them. -/
def printItems : List Value → List Char
  | [] => []
  | [v] => v.print
  | v :: w :: rest => v.print ++ ',' :: printItems (w :: rest)

/-- The characters of members, with commas between them. -/
def printMembers : List (String × Value) → List Char
  | [] => []
  | [(k, v)] => printString k ++ ':' :: v.print
  | (k, v) :: m :: rest => printString k ++ ':' :: (v.print ++ ',' :: printMembers (m :: rest))

end

/-- The text of a value. -/
def Value.text (v : Value) : String := String.ofList v.print

end Json
end Deferral
