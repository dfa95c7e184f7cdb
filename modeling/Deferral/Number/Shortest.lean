/-
# The shortest decimal text of a floating-point number

Of the decimals that round to a magnitude, the text shows one with the fewest
digits, and of those the nearest, an even last digit on a tie. It is written
positionally while its first digit has a weight from `10 ^ -5` to `10 ^ 15`,
with at least one digit after the point, and otherwise with an exponent that
has a sign.

Key definitions: `Binary64.shortest`, `Binary64.text`.
-/
import Deferral.Number.Binary64

namespace Deferral
namespace Binary64

/-- Compares `d * 10 ^ g` with `quarters` quarters of a unit. -/
def compareDecimal (d : Nat) (g : Int) (quarters : Nat) : Ordering :=
  if 0 ≤ g then compare (4 * d * tenTo g.natAbs * one) quarters
  else compare (4 * d * one) (quarters * tenTo g.natAbs)

/-- The reals that round to a magnitude, in quarters of a unit, and whether the ends round to it
too. Below a power of two the neighbours are closer. -/
def interval (f : Binary64) : Nat × Nat × Bool :=
  let s := spacing f.units
  let below := if 1 < s && f.units == s * twoTo 52 then s else 2 * s
  (4 * f.units - below, 4 * f.units + 2 * s, f.units / s % 2 == 0)

/-- The decimal `d * 10 ^ g` rounds to the magnitude. -/
def admits (f : Binary64) (d : Nat) (g : Int) : Bool :=
  let (low, high, closed) := f.interval
  match compareDecimal d g low, compareDecimal d g high with
  | .gt, .lt => true
  | .eq, _ => closed
  | _, .eq => closed
  | _, _ => false

/-- The largest `d` with `d * 10 ^ g` at most the magnitude. -/
def floorDecimal (f : Binary64) (g : Int) : Nat :=
  if 0 ≤ g then f.units / (tenTo g.natAbs * one)
  else f.units * tenTo g.natAbs / one

/-- Which of `d` and `d + 1` is nearer to the magnitude on the grid of `10 ^ g`: the even one on a
tie. -/
def nearer (f : Binary64) (d : Nat) (g : Int) : Nat :=
  let middle :=
    if 0 ≤ g then compare ((2 * d + 1) * tenTo g.natAbs * one) (2 * f.units)
    else compare ((2 * d + 1) * one) (2 * f.units * tenTo g.natAbs)
  match middle with
  | .lt => d + 1
  | .gt => d
  | .eq => if d % 2 = 0 then d else d + 1

/-- The point of the grid of `10 ^ g` that stands for the magnitude, if one does. -/
def onGrid? (f : Binary64) (g : Int) : Option Nat :=
  let d := f.floorDecimal g
  match f.admits d g, f.admits (d + 1) g with
  | true, true => some (f.nearer d g)
  | true, false => some d
  | false, true => some (d + 1)
  | false, false => none

/-- The digits and the power of ten on the first of `n` grids, each ten times finer, that has a
point for the magnitude. -/
def search (f : Binary64) (g : Int) : Nat → Nat × Int
  | 0 => (f.floorDecimal g, g)
  | n + 1 =>
    match f.onGrid? g with
    | some d => (d, g)
    | none => f.search (g - 1) n

/-- The number of digits before the point of `n / d`, for at most `steps` digits. -/
def wholeDigits (n d : Nat) : Nat → Nat
  | 0 => 0
  | steps + 1 => if n < d then 0 else wholeDigits n (10 * d) steps + 1

/-- The number of zeros between the point and the first digit of `n / d`, for at most `steps`. -/
def leadingZeros (n d : Nat) : Nat → Nat
  | 0 => 0
  | steps + 1 => if 10 * n < d then leadingZeros (10 * n) d steps + 1 else 0

/-- The weight of the digit before the first one: the magnitude is below ten to this power. -/
def topWeight (f : Binary64) : Int :=
  if one ≤ f.units then (wholeDigits f.units one 400 : Int)
  else -(leadingZeros f.units one 400 : Int)

/-- Removes zeros at the end of digits, at most `steps` of them. -/
def dropZeros (d : Nat) (g : Int) : Nat → Nat × Int
  | 0 => (d, g)
  | steps + 1 => if d % 10 = 0 ∧ d ≠ 0 then dropZeros (d / 10) (g + 1) steps else (d, g)

/-- The digits of the shortest decimal, and the power of ten they are multiplied with. -/
def shortest (f : Binary64) : Nat × Int :=
  let (d, g) := f.search (f.topWeight - 1) 17
  dropZeros d g 20

/-- A number of zeros. -/
def zeros (n : Nat) : List Char := List.replicate n '0'

/-- An exponent: its sign, which is always written, and its digits. -/
def exponentText (e : Int) : List Char :=
  (if e < 0 then '-' else '+') :: (toString e.natAbs).toList

/-- The text of digits times a power of ten. -/
def decimalText (digits : List Char) (g : Int) : List Char :=
  let point : Int := digits.length + g
  if -5 < point ∧ point ≤ 16 then
    if 0 ≤ g then digits ++ zeros g.natAbs ++ ['.', '0']
    else if 0 < point then
      digits.take point.natAbs ++ '.' :: digits.drop point.natAbs
    else '0' :: '.' :: (zeros point.natAbs ++ digits)
  else
    let mantissa :=
      match digits with
      | [] => []
      | [d] => [d]
      | d :: rest => d :: '.' :: rest
    mantissa ++ 'e' :: exponentText (point - 1)

/-- The text of a magnitude. -/
def text (f : Binary64) : String :=
  if f = zero then "0.0"
  else
    let (d, g) := f.shortest
    String.ofList (decimalText (toString d).toList g)

end Binary64
end Deferral
