import Watershed.Decimal.Layout

/-!
# Numbers with a fixed number of places

The exact value of a double is rounded to the last place shown; a value halfway between two
candidates goes to the even one.
-/

set_option autoImplicit false

namespace Watershed.Decimal

/-- The whole number nearest to `numerator / denominator`, the even one of two equally near. -/
def roundedQuotient (numerator denominator : Nat) : Nat :=
  let below := numerator / denominator
  let twice := 2 * (numerator % denominator)
  if twice < denominator then below
  else if denominator < twice then below + 1
  else below + below % 2

/-- The number of units of the last of `places` decimal places in `mantissa · 2 ^ exponent`,
rounded. -/
def roundedUnits (places mantissa : Nat) (exponent : Int) : Nat :=
  roundedQuotient (mantissa * Nat.pow 10 places * Nat.pow 2 exponent.toNat)
    (Nat.pow 2 (-exponent).toNat)

/-- Writes `units` of the last of `places` decimal places, with at least one digit before the
point. -/
def unitsText (places units : Nat) : String :=
  let whole := digits (units / Nat.pow 10 places)
  let fraction := digits (units % Nat.pow 10 places)
  String.ofList (whole ++ '.' :: (zeros (places - fraction.length) ++ fraction))

/-- Writes a double with exactly `places` decimal places, where `places` is positive. The sign of
a negative number is shown even when all digits are zero. -/
def fixed (places : Nat) (x : Float) : String :=
  match Double.ofFloat x with
  | .nan => "NaN"
  | .infinite negative => signText negative ++ "inf"
  | .finite negative mantissa exponent =>
    signText negative ++ unitsText places (roundedUnits places mantissa exponent)

end Watershed.Decimal
