import LocalRepair.Decimal.Binary

/-!
# Shortest decimal text

The text of a floating-point number in messages: the fewest digits that read
back as the same number, of those the nearest to its exact value, and always
positional, never with an exponent.

A decimal reads back exactly when it lies in the interval of values that round
to the number. The decimals with the fewest digits are the points of the
*coarsest* grid of multiples of a power of ten that meets the interval, and a
grid meets the interval only if one of the two grid points around the exact
value lies in it. So the search tries the grids from coarse to fine and looks
at two points of each.

## Main definitions

* `shortestDecimal`: that decimal, for a positive finite number.
* `Float.shortestText`: the text, with `NaN`, `inf` and `-inf` for the rest.
-/

namespace LocalRepair

/-- Everything about a positive number `mantissa * 2 ^ exponent` and the grid
of multiples of `10 ^ power`, scaled to naturals: the exact value, the ends of
the interval that rounds to it, and the distance between grid points. -/
structure GridView where
  value : Nat
  low : Nat
  high : Nat
  step : Nat

namespace GridView

/-- The interval reaches half way to each neighbour. Below a power of two the
neighbour is at half the usual distance, unless the exponent is already the
least one. A quarter of the number's own unit measures all of it. -/
def of (mantissa : Nat) (exponent power : Int) : GridView :=
  let quarter := exponent - 2
  let unit := Nat.pow 2 quarter.toNat * Nat.pow 10 (-power).toNat
  let below := if mantissa = Nat.pow 2 52 ∧ exponent ≠ Binary.leastExponent then 1 else 2
  { value := 4 * mantissa * unit
    low := (4 * mantissa - below) * unit
    high := (4 * mantissa + 2) * unit
    step := Nat.pow 2 (-quarter).toNat * Nat.pow 10 power.toNat }

/-- Whether `point` rounds to the number. A tie between two numbers goes to
the even mantissa, so the ends count exactly for an even mantissa. -/
def readsBack (view : GridView) (even : Bool) (point : Nat) : Bool :=
  if even then view.low ≤ point && point ≤ view.high
  else view.low < point && point < view.high

/-- The multiple of the grid's step nearest to the exact value among those
that read back; a tie goes up. -/
def hit? (view : GridView) (even : Bool) : Option Nat :=
  let floor := view.value / view.step
  let lower := floor * view.step
  let upper := lower + view.step
  match view.readsBack even lower, view.readsBack even upper with
  | true, true => some (if view.value - lower < upper - view.value then floor else floor + 1)
  | true, false => some floor
  | false, true => some (floor + 1)
  | false, false => none

end GridView

/-- Tries `count` grids from `10 ^ power` downwards. -/
def coarsestHit (mantissa : Nat) (exponent : Int) : Nat → Int → Option (Nat × Int)
  | 0, _ => none
  | count + 1, power =>
    match (GridView.of mantissa exponent power).hit? (mantissa % 2 == 0) with
    | some digits => some (digits, power)
    | none => coarsestHit mantissa exponent count (power - 1)

/-- The shortest decimal `digits * 10 ^ power` that reads back as the positive
number `mantissa * 2 ^ exponent`. The grids run from above the largest number
to below the distance of the smallest two, so one of them always has a hit. -/
def shortestDecimal (mantissa : Nat) (exponent : Int) : Nat × Int :=
  (coarsestHit mantissa exponent 700 310).getD (0, 0)

/-- `digits * 10 ^ power` written without an exponent. Zeros at the end of the
fraction are dropped, and so is the point when no fraction is left. -/
def positional (digits : Nat) : Int → String
  | .ofNat zeros => toString (digits * Nat.pow 10 zeros)
  | .negSucc p =>
    let places := p + 1
    let whole := digits / Nat.pow 10 places
    let fraction := String.ofList (Nat.toDigits 10 (digits % Nat.pow 10 places))
    let padded := String.ofList (List.replicate (places - fraction.length) '0') ++ fraction
    let kept := (padded.toList.reverse.dropWhile (· == '0')).reverse
    if kept.isEmpty then toString whole else toString whole ++ "." ++ String.ofList kept

/-- The text of a floating-point number in messages. -/
def shortestText (x : Float) : String :=
  let sign (negative : Bool) : String := if negative then "-" else ""
  match Binary.ofBits x.toBits with
  | .notANumber => "NaN"
  | .infinite negative => sign negative ++ "inf"
  | .finite negative mantissa exponent =>
    if mantissa = 0 then sign negative ++ "0"
    else
      let (digits, power) := shortestDecimal mantissa exponent
      sign negative ++ positional digits power

end LocalRepair
