/-
# Values as text

The text of a value names its parts: `Name { field: value, .. }`,
`Name(value, ..)`, `[value, ..]`, and a string in double quotes. In a quoted
string a quote and a backslash follow a backslash, and a character that is
not printable is written as an escape.

Key definitions: `Text.quoted`, `Text.record`, `Text.tuple`, `Text.listed`,
`Text.optional`.
-/
import Deferral.Flags.Text
import Deferral.Text.Printable

namespace Deferral
namespace Text

/-- The digits of a code point, without leading zeros. -/
def codePointDigits (n : Nat) : List Char :=
  if n < 65536 then Hex.write n
  else
    Hex.write (n / 65536) ++
      [Hex.digit (n / 4096 % 16), Hex.digit (n / 256 % 16), Hex.digit (n / 16 % 16),
        Hex.digit (n % 16)]

/-- A character as it stands in a quoted string. -/
def quotedChar (c : Char) : List Char :=
  if c = '"' then ['\\', '"']
  else if c = '\\' then ['\\', '\\']
  else if c = '\n' then ['\\', 'n']
  else if c = '\r' then ['\\', 'r']
  else if c = '\t' then ['\\', 't']
  else if c = '\x00' then ['\\', '0']
  else if isPrintable c then [c]
  else ['\\', 'u', '\x7b'] ++ codePointDigits c.toNat ++ ['\x7d']

/-- A string in double quotes. -/
def quoted (s : String) : String :=
  String.ofList ('"' :: (s.toList.flatMap quotedChar ++ ['"']))

/-- The braces that hold the fields of a record. -/
def braces (inner : String) : String := "\x7b " ++ inner ++ " \x7d"

/-- A record with the texts of its fields. -/
def record (name : String) (fields : List (String × String)) : String :=
  name ++ " " ++ braces (String.intercalate ", " (fields.map fun f => f.1 ++ ": " ++ f.2))

/-- A name applied to the texts of its arguments. -/
def tuple (name : String) (args : List String) : String :=
  name ++ "(" ++ String.intercalate ", " args ++ ")"

/-- The texts of the items of a list. -/
def listed (items : List String) : String := "[" ++ String.intercalate ", " items ++ "]"

/-- The text of a value that may be absent. -/
def optional (value : Option String) : String :=
  match value with
  | some text => tuple "Some" [text]
  | none => "None"

/-- The text of a truth value. -/
def truth (b : Bool) : String := if b then "true" else "false"

end Text
end Deferral
