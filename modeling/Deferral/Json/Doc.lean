/-
# JSON text as far as it can be read

Text is read once, from left to right, up to the first fault. A document is
what was read: the values, and in place of the rest the fault. A fault
depends on whether the value is looked at or only skipped: skipping does not
mind a number too large or a surrogate that stands alone, and it calls a
number that breaks off ill formed and not truncated.

Key definitions: `Json.Doc`, `Json.TextFault`, `Json.Doc.skip`.
-/
import Deferral.Number.Binary64

namespace Deferral
namespace Json

/-- Why a text is not JSON. -/
inductive TextFault where
  | illFormed
  /-- The text ends inside a value. -/
  | truncated
deriving DecidableEq

/-- A number: a natural number below `2 ^ 64`, a negative integer down to `- 2 ^ 63`, or else a
floating-point number. -/
inductive Number where
  | natural (n : Nat)
  | negative (n : Nat)
  | float (negative : Bool) (magnitude : Binary64)
deriving DecidableEq

mutual

/-- What was read where a value is due. -/
inductive Doc where
  | null
  | bool (b : Bool)
  | number (n : Number)
  /-- A number too large for the format; a fault when it is looked at. -/
  | hugeNumber
  | string (s : String)
  /-- A string with a surrogate that stands alone; a fault when it is looked at. -/
  | loneSurrogate
  | array (items : Items)
  | object (members : Members)
  /-- The text has ended. -/
  | missing
  /-- A string breaks off. -/
  | brokenString (looked skipped : TextFault)
  /-- Something else stands here, or a word or a number breaks off. -/
  | broken (looked skipped : TextFault)

/-- What was read behind an opening bracket. -/
inductive Items where
  | close
  /-- Neither a comma nor a closing bracket follows. -/
  | cut (fault : TextFault)
  | more (value : Doc) (rest : Items)

/-- What was read behind an opening brace. -/
inductive Members where
  | close
  /-- Neither a comma nor a closing brace follows. -/
  | cut (fault : TextFault)
  /-- The text has ended where a key is due. -/
  | missingKey
  /-- Something other than a string stands where a key is due. -/
  | badKey
  /-- A key breaks off. -/
  | brokenKey (looked skipped : TextFault)
  /-- A key, unless a surrogate stands alone in it, and its value; a missing colon is a fault in
  place of the value. -/
  | member (key : Option String) (value : Doc) (rest : Members)

end

mutual

/-- Skips a value, which must be JSON. -/
def Doc.skip : Doc → Except TextFault Unit
  | .null => .ok ()
  | .bool _ => .ok ()
  | .number _ => .ok ()
  | .hugeNumber => .ok ()
  | .string _ => .ok ()
  | .loneSurrogate => .ok ()
  | .array items => items.skip
  | .object members => members.skip
  | .missing => .error .truncated
  | .brokenString _ skipped => .error skipped
  | .broken _ skipped => .error skipped

/-- Skips items. -/
def Items.skip : Items → Except TextFault Unit
  | .close => .ok ()
  | .cut fault => .error fault
  | .more value rest =>
    match value.skip with
    | .ok _ => rest.skip
    | .error fault => .error fault

/-- Skips members. -/
def Members.skip : Members → Except TextFault Unit
  | .close => .ok ()
  | .cut fault => .error fault
  | .missingKey => .error .truncated
  | .badKey => .error .illFormed
  | .brokenKey _ skipped => .error skipped
  | .member _ value rest =>
    match value.skip with
    | .ok _ => rest.skip
    | .error fault => .error fault

end

end Json
end Deferral
