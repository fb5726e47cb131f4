import Watershed.Decimal.Layout

/-!
# Reading numbers

Texts are read as doubles by correct rounding of the decimal they spell.
-/

set_option autoImplicit false

namespace Watershed.Decimal

/-- The whole number that a list of digits spells. -/
def ofDigits (ds : List Char) : Nat :=
  ds.foldl (fun n c => 10 * n + (c.toNat - '0'.toNat)) 0

/-- Every decimal at or above `10 ^ 310` is beyond the largest double. -/
def overflowPosition : Int := 310

/-- Every decimal below `10 ^ -330` rounds to zero. -/
def underflowPosition : Int := -330

/-- The double nearest to a decimal. Decimals far outside the range of doubles are settled by the
position of their point, so that no huge power of ten is ever computed. -/
def toFloat (d : Decimal) : Float :=
  if d.coefficient = 0 || d.pointPosition < underflowPosition then 0.0
  else if overflowPosition < d.pointPosition then 1.0 / 0.0
  else if d.exponent < 0 then Float.ofScientific d.coefficient true d.exponent.natAbs
  else Float.ofScientific d.coefficient false d.exponent.natAbs

/-- Splits a text into its longest run of leading digits and the rest. -/
def spanDigits (cs : List Char) : List Char × List Char :=
  (cs.takeWhile Char.isDigit, cs.dropWhile Char.isDigit)

/-- Digits in front of a text that goes on with something else are the leading digits of the whole.
-/
theorem spanDigits_append {ds rest : List Char} (hdigits : ∀ d ∈ ds, d.isDigit = true)
    (hrest : ∀ c ∈ rest.head?, c.isDigit = false) : spanDigits (ds ++ rest) = (ds, rest) := by
  rw [spanDigits, List.takeWhile_append_of_pos hdigits, List.dropWhile_append_of_pos hdigits]
  cases rest with
  | nil => simp
  | cons c rest => simp [hrest c rfl]

/-- Reads a whole number: one or more digits and nothing else. -/
def readWhole? (cs : List Char) : Option Nat :=
  if cs.isEmpty || !cs.all Char.isDigit then none else some (ofDigits cs)

/-- Splits an optional sign off a text and says whether it is a minus. -/
def splitSign : List Char → Bool × List Char
  | '-' :: cs => (true, cs)
  | '+' :: cs => (false, cs)
  | cs => (false, cs)

/-- Reads an exponent: nothing at all, or the letter `e` in either case, an optional sign and
digits. -/
def readPower? : List Char → Option Int
  | [] => some 0
  | c :: cs =>
    if c = 'e' || c = 'E' then
      let (negative, ds) := splitSign cs
      (readWhole? ds).map fun n => if negative then -(n : Int) else n
    else
      none

/-- Reads an unsigned decimal: digits around an optional point, at least one of them, and an
optional power of ten. -/
def readDecimal? (cs : List Char) : Option Decimal :=
  let (whole, afterWhole) := spanDigits cs
  let (fraction, afterFraction) :=
    match afterWhole with
    | '.' :: more => spanDigits more
    | _ => ([], afterWhole)
  if whole.isEmpty && fraction.isEmpty then
    none
  else
    (readPower? afterFraction).map fun power =>
      ⟨ofDigits (whole ++ fraction), power - fraction.length⟩

/-- Reads the magnitude of a number: a decimal, an infinity or a NaN, the last two in either case.
-/
def readMagnitude? (cs : List Char) : Option Float :=
  let word := String.ofList (cs.map Char.toLower)
  if word = "inf" || word = "infinity" then some (1.0 / 0.0)
  else if word = "nan" then some (0.0 / 0.0)
  else (readDecimal? cs).map toFloat

/-- Reads a number with an optional sign. -/
def readFloat? (text : String) : Option Float :=
  let (negative, cs) := splitSign text.toList
  (readMagnitude? cs).map fun x => if negative then -x else x

/-- The largest count that can be asked for: counts have thirty-two bits. -/
def largestCount : Nat := Nat.pow 2 32 - 1

/-- Reads a count: an optional plus sign and digits, at most `largestCount`. -/
def readCount? (text : String) : Option Nat :=
  let ds :=
    match text.toList with
    | '+' :: cs => cs
    | cs => cs
  (readWhole? ds).filter (· ≤ largestCount)

end Watershed.Decimal
