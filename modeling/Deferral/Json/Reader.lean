/-
# Reading JSON text

Blanks are space, tab, line feed and carriage return. A number with digits
beyond those of a 64-bit natural number loses them and keeps its size. A
string holds no control characters; a `\u` escape has four hexadecimal
digits, and two of them with surrogates make one character.

Key definitions: `Json.readString`, `Json.readNumber`, `Json.readDoc`,
`Json.read`.
-/
import Deferral.Flags.Text
import Deferral.Json.Doc

namespace Deferral
namespace Json

/-- White space between the tokens of JSON. -/
def isBlank (c : Char) : Bool := c = ' ' || c = '\t' || c = '\n' || c = '\r'

/-- The text without the blanks it starts with. -/
def skipBlanks (cs : List Char) : List Char := cs.dropWhile isBlank

/-- The fault where something else than expected is next, if anything is. -/
def faultAt : List Char → TextFault
  | [] => .truncated
  | _ :: _ => .illFormed

/-! ### Words -/

/-- The text behind a word that is due. -/
def readWord : List Char → List Char → Except TextFault (List Char)
  | [], cs => .ok cs
  | _ :: _, [] => .error .truncated
  | w :: word, c :: cs => if c = w then readWord word cs else .error .illFormed

/-! ### Strings -/

/-- A string up to its closing quote, and the text behind it. A string that can only be skipped has
no characters. -/
inductive StringRead where
  | ok (chars : Option (List Char)) (rest : List Char)
  | broken (looked skipped : TextFault)

namespace StringRead

/-- The same string with a character in front. -/
def cons (c : Char) : StringRead → StringRead
  | ok chars rest => ok (chars.map (c :: ·)) rest
  | broken looked skipped => broken looked skipped

/-- The same string with a surrogate alone in front: it can only be skipped. -/
def spoil : StringRead → StringRead
  | ok _ rest => ok none rest
  | broken _ skipped => broken .illFormed skipped

/-- A string that is faulty in either case. -/
def fail (fault : TextFault) : StringRead := broken fault fault

end StringRead

/-- The value of four hexadecimal digits. -/
def hex4? (a b c d : Char) : Option Nat :=
  match Hex.value? a, Hex.value? b, Hex.value? c, Hex.value? d with
  | some a, some b, some c, some d => some (a * 4096 + b * 256 + c * 16 + d)
  | _, _, _, _ => none

/-- The number of bytes of a text in UTF-8. -/
def byteLength : List Char → Nat
  | [] => 0
  | c :: cs => c.utf8Size + byteLength cs

/-- The fault of an escape without four hexadecimal digits: it is truncated where fewer than four
bytes are left. -/
def hexFault (cs : List Char) : TextFault :=
  if byteLength (cs.take 4) < 4 then .truncated else .illFormed

/-- The first of a pair of surrogates. -/
def isHighSurrogate (n : Nat) : Bool := decide (0xD800 ≤ n) && decide (n ≤ 0xDBFF)

/-- The second of a pair of surrogates. -/
def isLowSurrogate (n : Nat) : Bool := decide (0xDC00 ≤ n) && decide (n ≤ 0xDFFF)

/-- The character that two surrogates make. -/
def pairChar (high low : Nat) : Char :=
  Char.ofNat (0x10000 + (high - 0xD800) * 0x400 + (low - 0xDC00))

/-- The character that a letter behind a backslash stands for. -/
def escaped? (c : Char) : Option Char :=
  if c = '"' then some '"'
  else if c = '\\' then some '\\'
  else if c = '/' then some '/'
  else if c = 'b' then some '\x08'
  else if c = 'f' then some '\x0c'
  else if c = 'n' then some '\n'
  else if c = 'r' then some '\r'
  else if c = 't' then some '\t'
  else none

/-- Reads a string behind its opening quote. -/
def readString : List Char → StringRead
  | [] => .fail .truncated
  | '"' :: rest => .ok (some []) rest
  | '\\' :: 'u' :: a :: b :: c :: d :: '\\' :: 'u' :: e :: f :: g :: h :: rest =>
    match hex4? a b c d with
    | none => .fail .illFormed
    | some n =>
      if isHighSurrogate n then
        match hex4? e f g h with
        | none => .fail .illFormed
        | some m =>
          if isLowSurrogate m then (readString rest).cons (pairChar n m)
          else (readString rest).spoil
      else if isLowSurrogate n then
        (readString ('\\' :: 'u' :: e :: f :: g :: h :: rest)).spoil
      else (readString ('\\' :: 'u' :: e :: f :: g :: h :: rest)).cons (Char.ofNat n)
  | '\\' :: 'u' :: a :: b :: c :: d :: rest =>
    match hex4? a b c d with
    | none => .fail .illFormed
    | some n =>
      if isHighSurrogate n then
        match rest with
        | [] => .fail .truncated
        | ['\\'] => .fail .truncated
        | '\\' :: 'u' :: cs => .fail (hexFault cs)
        | _ => (readString rest).spoil
      else if isLowSurrogate n then (readString rest).spoil
      else (readString rest).cons (Char.ofNat n)
  | '\\' :: 'u' :: cs => .fail (hexFault cs)
  | '\\' :: c :: rest =>
    match escaped? c with
    | some e => (readString rest).cons e
    | none => .fail .illFormed
  | ['\\'] => .fail .truncated
  | c :: rest => if c.toNat < 0x20 then .fail .illFormed else (readString rest).cons c

/-! ### Numbers -/

/-- A number and the text behind it. A number too large for the format can only be skipped. -/
inductive NumberRead where
  | ok (n : Option Number) (rest : List Char)
  | broken (looked skipped : TextFault)

/-- The value of a decimal digit. -/
def digitValue (c : Char) : Nat := c.toNat - '0'.toNat

/-- Adds digits to a number while it stays below `2 ^ 64`, and answers those left over. -/
def absorb (n : Nat) : List Char → Nat × List Char
  | [] => (n, [])
  | c :: cs =>
    if n * 10 + digitValue c < 0x10000000000000000 then absorb (n * 10 + digitValue c) cs
    else (n, c :: cs)

/-- The digits that a text starts with, and the text behind them. -/
def spanDigits (cs : List Char) : List Char × List Char :=
  (cs.takeWhile Char.isDigit, cs.dropWhile Char.isDigit)

/-- The number that digits write in decimal. -/
def natOfDigits (cs : List Char) : Nat := cs.foldl (fun n c => n * 10 + digitValue c) 0

/-- The exponent that a text starts with behind the letter `e`, and the text behind it. -/
def readExponent (cs : List Char) : Except TextFault (Int × List Char) :=
  let (negative, unsigned) :=
    match cs with
    | '+' :: rest => (false, rest)
    | '-' :: rest => (true, rest)
    | rest => (false, rest)
  match spanDigits unsigned with
  | ([], rest) => .error (faultAt rest)
  | (digits, rest) =>
    let n : Int := natOfDigits digits
    .ok (if negative then -n else n, rest)

/-- A floating-point number of digits times a power of ten. -/
def floatRead (negative : Bool) (digits : Nat) (exponent : Int) (rest : List Char) : NumberRead :=
  .ok ((Binary64.ofDecimal? digits exponent).map (.float negative)) rest

/-- Reads what may follow the digits and the fraction of a number: an exponent. -/
def readScale (negative : Bool) (digits : Nat) (exponent : Int) (rest : List Char) : NumberRead :=
  match rest with
  | 'e' :: cs | 'E' :: cs =>
    match readExponent cs with
    | .ok (e, rest) => floatRead negative digits (exponent + e) rest
    | .error fault => .broken fault .illFormed
  | _ => floatRead negative digits exponent rest

/-- An integer is kept as it is where it fits, and is a floating-point number elsewhere, like a
negative zero. -/
def integerRead (negative : Bool) (n : Nat) (rest : List Char) : NumberRead :=
  if !negative then .ok (some (.natural n)) rest
  else if 0 < n ∧ n ≤ 0x8000000000000000 then .ok (some (.negative n)) rest
  else floatRead true n 0 rest

/-- Reads a number behind its sign. -/
def readNumber (negative : Bool) (cs : List Char) : NumberRead :=
  match spanDigits cs with
  | ([], []) => .broken .truncated .illFormed
  | ([], _ :: _) => .broken .illFormed .illFormed
  | ('0' :: _ :: _, _) => .broken .illFormed .illFormed
  | (whole, rest) =>
    let (n, dropped) := absorb 0 whole
    match rest with
    | '.' :: cs =>
      match spanDigits cs with
      | ([], rest) => .broken (faultAt rest) .illFormed
      | (fraction, rest) =>
        let (m, unused) := absorb n fraction
        readScale negative m (dropped.length - (fraction.length - unused.length : Nat)) rest
    | 'e' :: _ | 'E' :: _ => readScale negative n dropped.length rest
    | _ =>
      if dropped.isEmpty then integerRead negative n rest
      else floatRead negative n dropped.length rest

/-! ### Values -/

/-- The value that a word stands for, if the word is there. -/
def wordDoc (value : Doc) (word cs : List Char) : Doc × List Char :=
  match readWord word cs with
  | .ok rest => (value, rest)
  | .error fault => (.broken fault fault, [])

/-- The value of a number that was read. -/
def numberDoc : NumberRead → Doc × List Char
  | .ok (some n) rest => (.number n, rest)
  | .ok none rest => (.hugeNumber, rest)
  | .broken looked skipped => (.broken looked skipped, [])

/-- The value of a string that was read. -/
def stringDoc : StringRead → Doc × List Char
  | .ok (some chars) rest => (.string (String.ofList chars), rest)
  | .ok none rest => (.loneSurrogate, rest)
  | .broken looked skipped => (.brokenString looked skipped, [])

mutual

/-- Reads a value that nests at most `depth` deep, and answers the text behind it. -/
def readDoc : Nat → List Char → Doc × List Char
  | 0, _ => (.missing, [])
  | depth + 1, cs =>
    match skipBlanks cs with
    | [] => (.missing, [])
    | 'n' :: rest => wordDoc .null ['u', 'l', 'l'] rest
    | 't' :: rest => wordDoc (.bool true) ['r', 'u', 'e'] rest
    | 'f' :: rest => wordDoc (.bool false) ['a', 'l', 's', 'e'] rest
    | '"' :: rest => stringDoc (readString rest)
    | '[' :: rest =>
      match skipBlanks rest with
      | ']' :: rest => (.array .close, rest)
      | [] => (.array (.cut .truncated), [])
      | rest =>
        let (items, rest) := readItems depth rest
        (.array items, rest)
    | '\x7b' :: rest =>
      match skipBlanks rest with
      | '\x7d' :: rest => (.object .close, rest)
      | rest =>
        let (members, rest) := readMembers depth rest
        (.object members, rest)
    | '-' :: rest => numberDoc (readNumber true rest)
    | c :: rest =>
      if c.isDigit then numberDoc (readNumber false (c :: rest))
      else (.broken .illFormed .illFormed, [])

/-- Reads an item and those that follow it. -/
def readItems : Nat → List Char → Items × List Char
  | 0, _ => (.cut .truncated, [])
  | depth + 1, cs =>
    let (value, rest) := readDoc depth cs
    match skipBlanks rest with
    | ',' :: rest =>
      let (items, rest) := readItems depth rest
      (.more value items, rest)
    | ']' :: rest => (.more value .close, rest)
    | rest => (.more value (.cut (faultAt rest)), [])

/-- Reads a member and those that follow it. -/
def readMembers : Nat → List Char → Members × List Char
  | 0, _ => (.missingKey, [])
  | depth + 1, cs =>
    match skipBlanks cs with
    | [] => (.missingKey, [])
    | '"' :: rest =>
      match readString rest with
      | .broken looked skipped => (.brokenKey looked skipped, [])
      | .ok chars rest =>
        let key := chars.map String.ofList
        match skipBlanks rest with
        | ':' :: rest =>
          let (value, rest) := readDoc depth rest
          match skipBlanks rest with
          | ',' :: rest =>
            let (members, rest) := readMembers depth rest
            (.member key value members, rest)
          | '\x7d' :: rest => (.member key value .close, rest)
          | rest => (.member key value (.cut (faultAt rest)), [])
        | [] => (.member key .missing .close, [])
        | _ => (.member key (.broken .illFormed .illFormed) .close, [])
    | _ => (.badKey, [])

end

/-- Reads a text: its value, and whether only blanks follow. -/
def read (text : String) : Doc × Bool :=
  let cs := text.toList
  let (doc, rest) := readDoc (2 * cs.length + 2) cs
  (doc, (skipBlanks rest).isEmpty)

end Json
end Deferral
