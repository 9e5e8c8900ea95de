/-!
# Binary floating-point numbers as exact values

A 64-bit floating-point number is a sign, an integer and a power of two. The
number formats of this library are rules about exact values (the fewest
digits that read back, two places with ties to even, the number nearest to a
decimal), so they are stated on that exact form and computed in `Nat`.

Nothing here uses floating-point arithmetic: a number enters through its bits
and leaves through its bits.

## Main definitions

* `Binary.ofBits`: what a pattern of 64 bits stands for.
* `nearestBits`: the bits of the number nearest to a quotient of naturals.
* `Decimal.toFloat?`: the number nearest to a written decimal, none when the
  decimal is beyond every finite number.
-/

namespace LocalRepair

/-- What a 64-bit floating-point number stands for. A finite number is
`mantissa * 2 ^ exponent`, negated when `negative` is set; both zeros are
finite with mantissa `0`. -/
inductive Binary where
  | finite (negative : Bool) (mantissa : Nat) (exponent : Int)
  | infinite (negative : Bool)
  | notANumber
  deriving DecidableEq, Repr

namespace Binary

/-- Exponent of the smallest positive number. -/
def leastExponent : Int := -1074

/-- Reads 1 sign bit, 11 exponent bits and 52 fraction bits. A stored exponent
of `0` means that the leading bit is absent, and all ones are kept for the
infinities and for results that are no number. -/
def ofBits (bits : UInt64) : Binary :=
  let negative := bits.toNat / Nat.pow 2 63 == 1
  let stored : Nat := bits.toNat / Nat.pow 2 52 % Nat.pow 2 11
  let fraction : Nat := bits.toNat % Nat.pow 2 52
  if stored = Nat.pow 2 11 - 1 then
    if fraction = 0 then infinite negative else notANumber
  else if stored = 0 then finite negative fraction leastExponent
  else finite negative (fraction + Nat.pow 2 52) (leastExponent + (stored : Int) - 1)

end Binary

/-- `numerator / denominator` rounded to an integer, a tie going to the even
neighbour. -/
def roundToEven (numerator denominator : Nat) : Nat :=
  let quotient := numerator / denominator
  let twice := 2 * (numerator % denominator)
  if twice < denominator then quotient
  else if twice = denominator then quotient + quotient % 2
  else quotient + 1

/-- `value * 2 ^ exponent` as a quotient of naturals. -/
def scaleByTwo (numerator denominator : Nat) (exponent : Int) : Nat × Nat :=
  match exponent with
  | .ofNat up => (numerator * Nat.pow 2 up, denominator)
  | .negSucc down => (numerator, denominator * Nat.pow 2 (down + 1))

/-- The bits of the non-negative number nearest to
`numerator / denominator`, none when that number is infinite.

The quotient is scaled so that its integer part has 53 bits, or fewer when the
smallest exponent is reached. Exponent and rounded integer are then *added*:
a carry out of the 53 bits moves on to the next exponent by itself. -/
def nearestBits (numerator denominator : Nat) : Option UInt64 :=
  if numerator = 0 ∨ denominator = 0 then some 0
  else
    let guess : Int := (numerator.log2 : Int) - denominator.log2 - 53
    let (n, d) := scaleByTwo numerator denominator (-guess)
    let exponent := max Binary.leastExponent (if n < Nat.pow 2 53 * d then guess else guess + 1)
    let (n, d) := scaleByTwo numerator denominator (-exponent)
    let bits := (exponent - Binary.leastExponent).toNat * Nat.pow 2 52 + roundToEven n d
    if bits < (Nat.pow 2 11 - 1) * Nat.pow 2 52 then some bits.toUInt64 else none

/-- A decimal numeral: `digits * 10 ^ exponent`, negated when `negative` is
set. A sign before zero is kept. -/
structure Decimal where
  negative : Bool
  digits : Nat
  exponent : Int
  deriving DecidableEq, Repr

namespace Decimal

/-- Number of decimal digits of a natural number; zero has one. -/
def digitCount (n : Nat) : Nat := (Nat.toDigits 10 n).length

/-- A power of ten beyond which a numeral of the given length exceeds every
finite number, and below whose negative it is nearer to zero than to any other
number. The bound keeps huge written exponents from being expanded. -/
def exponentLimit : Int := 400

/-- The number nearest to a decimal, none when that number would be infinite.
A decimal too small to matter gives a zero of its sign. -/
def toFloat? (d : Decimal) : Option Float :=
  let signed (bits : UInt64) : Float :=
    Float.ofBits (if d.negative then bits + 0x8000000000000000 else bits)
  let leading := d.exponent + digitCount d.digits
  if d.digits = 0 then some (signed 0)
  else if exponentLimit < leading then none
  else if leading < -exponentLimit then some (signed 0)
  else
    let bits := match d.exponent with
      | .ofNat up => nearestBits (d.digits * Nat.pow 10 up) 1
      | .negSucc down => nearestBits d.digits (Nat.pow 10 (down + 1))
    bits.map signed

end Decimal
end LocalRepair
