import LocalRepair.Decimal.Binary

/-!
# Fixed-point decimal text

Times in the statistics table have two places. The exact binary value is
rounded, and a tie goes to the even neighbour, so an eighth is written `0.12`
and three eighths are written `0.38`.
-/

namespace LocalRepair

/-- A natural number of hundredths, written with two places. -/
def hundredthsText (n : Nat) : String :=
  let places := n % 100
  toString (n / 100) ++ "." ++ (if places < 10 then "0" else "") ++ toString places

/-- A floating-point number with two places. -/
def twoPlaces (x : Float) : String :=
  match Binary.ofBits x.toBits with
  | .notANumber => "NaN"
  | .infinite negative => if negative then "-inf" else "inf"
  | .finite negative mantissa exponent =>
    let (n, d) := scaleByTwo (mantissa * 100) 1 exponent
    (if negative then "-" else "") ++ hundredthsText (roundToEven n d)

end LocalRepair
