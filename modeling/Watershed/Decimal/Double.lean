/-!
# Doubles taken apart

A finite double is a sign and a magnitude `mantissa · 2 ^ exponent`. Everything that is written
about a number (shortest digits, fixed places) is computed from this exact view, never from
another rounding.
-/

set_option autoImplicit false

namespace Watershed.Decimal

/-- The number a double stands for, with its sign kept apart so that both zeros remain distinct.
-/
inductive Double where
  /-- Not a number. -/
  | nan
  /-- An infinity. -/
  | infinite (negative : Bool)
  /-- The number `± mantissa · 2 ^ exponent`. -/
  | finite (negative : Bool) (mantissa : Nat) (exponent : Int)
deriving DecidableEq, Repr

namespace Double

/-- The weight of the leading bit of a normal mantissa, which the stored fraction leaves out. -/
def hiddenBit : Nat := Nat.pow 2 52

/-- The exponent of the smallest subnormal double. -/
def leastExponent : Int := -1074

/-- Reads the sign, the eleven exponent bits and the fifty-two fraction bits of a double. -/
def ofFloat (x : Float) : Double :=
  let bits := x.toBits.toNat
  let negative := decide (Nat.pow 2 63 ≤ bits)
  let exponent := bits / hiddenBit % 2048
  let fraction := bits % hiddenBit
  if exponent = 2047 then
    if fraction = 0 then .infinite negative else .nan
  else if exponent = 0 then
    .finite negative fraction leastExponent
  else
    .finite negative (hiddenBit + fraction) (exponent - 1075)

end Double

/-- The minus sign of a negative number, and nothing for any other. -/
def signText (negative : Bool) : String :=
  if negative then "-" else ""

end Watershed.Decimal
