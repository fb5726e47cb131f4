import Watershed.Decimal.Shortest

/-!
# Layout of a number

A number is written with its shortest digits, either positionally or with a power of ten. A
`Style` says which of the two is used where, whether whole numbers keep a point, and how infinity
is spelled.
-/

set_option autoImplicit false

namespace Watershed.Decimal

/-- The decimal digits of a whole number. -/
def digits (n : Nat) : List Char :=
  Nat.toDigits 10 n

/-- A run of zeros. -/
def zeros (count : Nat) : List Char :=
  List.replicate count '0'

/-- The number of digits of a decimal before its point; not positive for a decimal below one
tenth. -/
def pointPosition (d : Decimal) : Int :=
  (digits d.coefficient).length + d.exponent

/-- The choices that make up one way of writing numbers. -/
structure Style where
  /-- Whether a decimal with this many digits before its point is written positionally. -/
  positional : Int → Bool
  /-- Whether a whole number written positionally ends in `.0`. -/
  keepsPoint : Bool
  /-- The spelling of infinity. -/
  infinity : String

/-- Writes a decimal with all its places, filling up with zeros on either side. -/
def positionalText (keepsPoint : Bool) (d : Decimal) : List Char :=
  let ds := digits d.coefficient
  if 0 ≤ d.exponent then
    ds ++ zeros d.exponent.toNat ++ (if keepsPoint then ['.', '0'] else [])
  else if 0 < d.pointPosition then
    ds.take d.pointPosition.toNat ++ '.' :: ds.drop d.pointPosition.toNat
  else
    ['0', '.'] ++ zeros (-d.pointPosition).toNat ++ ds

/-- Writes a decimal with one digit before the point, none behind it if there is no other digit,
and the power of ten after an `e`. -/
def exponentText (d : Decimal) : List Char :=
  let ds := digits d.coefficient
  let fraction := ds.drop 1
  let power := d.pointPosition - 1
  ds.take 1 ++ (if fraction.isEmpty then [] else '.' :: fraction)
    ++ 'e' :: (if power < 0 then '-' :: digits power.natAbs else digits power.natAbs)

/-- Writes a decimal in a style. -/
def layout (style : Style) (d : Decimal) : String :=
  String.ofList <|
    if style.positional d.pointPosition then positionalText style.keepsPoint d else exponentText d

/-- Writes a double in a style; the sign of a zero is shown, that of a NaN is not. -/
def text (style : Style) (x : Float) : String :=
  match Double.ofFloat x with
  | .nan => "NaN"
  | .infinite negative => signText negative ++ style.infinity
  | .finite negative mantissa exponent =>
    signText negative ++ layout style (shortest mantissa exponent)

end Watershed.Decimal
