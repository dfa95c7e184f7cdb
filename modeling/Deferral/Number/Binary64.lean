/-
# Magnitudes of binary floating-point numbers

A finite magnitude is a natural number of units, a unit being the smallest
positive number of the format with 53 significant bits and 11 exponent bits,
`2 ^ -1074`. Each operation computes the exact result and rounds it once, to
the nearest number of the format and on a tie to the even one.

Key definitions: `Binary64`, `Binary64.ofRatio?`, `Binary64.mul?`,
`Binary64.div?`.
-/

namespace Deferral

/-- A finite magnitude, in units of `2 ^ -1074`. -/
structure Binary64 where
  units : Nat
deriving DecidableEq

namespace Binary64

/-- A power of two. -/
def twoTo (k : Nat) : Nat := Nat.pow 2 k

/-- A power of ten. -/
def tenTo (k : Nat) : Nat := Nat.pow 10 k

/-- The number of units in one. -/
def one : Nat := twoTo 1074

/-- The first number of units that is too large for the format. -/
def overflow : Nat := twoTo (1024 + 1074)

/-- The distance between neighbours, in units, near a magnitude of `n` units. -/
def spacing (n : Nat) : Nat := twoTo (n.log2 - 52)

/-- The quotient rounded to the nearest natural number, a tie to the even one. -/
def roundQuotient (num den : Nat) : Nat :=
  let q := num / den
  let twice := 2 * (num % den)
  if twice < den then q
  else if den < twice then q + 1
  else if q % 2 = 0 then q
  else q + 1

/-- The nearest magnitude to `num / den` units, unless it is too large for the format. -/
def ofUnits? (num den : Nat) : Option Binary64 :=
  let s := spacing (num / den)
  let n := roundQuotient num (den * s) * s
  if n < overflow then some ⟨n⟩ else none

/-- The nearest magnitude to `num / den`, unless it is too large for the format. -/
def ofRatio? (num den : Nat) : Option Binary64 := ofUnits? (num * one) den

/-- The product, rounded. -/
def mul? (a b : Binary64) : Option Binary64 := ofUnits? (a.units * b.units) one

/-- The quotient, rounded. -/
def div? (a b : Binary64) : Option Binary64 := ofUnits? (a.units * one) b.units

/-- Zero. -/
def zero : Binary64 := ⟨0⟩

/-- The magnitude nearest to a power of ten, for exponents to 308. -/
def powerOfTen (e : Nat) : Binary64 := (ofRatio? (tenTo e) 1).getD zero

/-- The magnitude of a decimal number, computed with one rounding for its digits and one for the
power of ten; a power beyond the format is divided off in steps, at most `steps` of them. -/
def scale? (f : Binary64) (exponent : Int) : Nat → Option Binary64
  | 0 => some zero
  | steps + 1 =>
    if exponent.natAbs ≤ 308 then
      if 0 ≤ exponent then f.mul? (powerOfTen exponent.natAbs)
      else f.div? (powerOfTen exponent.natAbs)
    else if f = zero then some zero
    else if 0 ≤ exponent then none
    else
      match f.div? (powerOfTen 308) with
      | some g => scale? g (exponent + 308) steps
      | none => none

/-- The magnitude of `digits` times a power of ten, unless it is too large for the format. Three
divisions by the largest power of ten bring every magnitude to zero. -/
def ofDecimal? (digits : Nat) (exponent : Int) : Option Binary64 :=
  match ofRatio? digits 1 with
  | some f => f.scale? exponent 4
  | none => none

end Binary64
end Deferral
