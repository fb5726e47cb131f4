import Watershed.Decimal.Double

/-!
# The shortest decimal that reads back

The reals that round to a given positive double form an interval around it. The shortest decimal
of the double is the multiple of the largest power of ten that lies in this interval; where two
multiples of that power do, the nearer one is taken, and the upper one of two equally near.
-/

set_option autoImplicit false

namespace Watershed

/-- The number `coefficient · 10 ^ exponent`. -/
structure Decimal where
  /-- The digits of the number, read as a whole number. -/
  coefficient : Nat
  /-- The power of ten the coefficient is counted in. -/
  exponent : Int
deriving DecidableEq, Repr

namespace Decimal

/-- The reals that round to the double `centre · 2 ^ scale`: those between `low · 2 ^ scale` and
`high · 2 ^ scale`, the ends included if and only if the interval is `closed`. -/
structure Neighbourhood where
  low : Nat
  centre : Nat
  high : Nat
  scale : Int
  closed : Bool
deriving DecidableEq, Repr

namespace Neighbourhood

/-- The interval of a positive double, in quarters of its last place. Its ends are the midpoints
to the neighbouring doubles; below a power of two the neighbour is only half a place away. A
midpoint rounds to the even mantissa, so the ends belong to the interval exactly when the mantissa
is even. -/
def ofDouble (mantissa : Nat) (exponent : Int) : Neighbourhood :=
  let narrow := mantissa = Double.hiddenBit ∧ Double.leastExponent < exponent
  { low := 4 * mantissa - (if narrow then 1 else 2)
    centre := 4 * mantissa
    high := 4 * mantissa + 2
    scale := exponent - 2
    closed := mantissa % 2 = 0 }

/-- One step of the grid of multiples of `10 ^ grid`, in the common unit of the grid and the
interval. -/
def step (i : Neighbourhood) (grid : Int) : Nat :=
  Nat.pow 10 grid.toNat * Nat.pow 2 (-i.scale).toNat

/-- The point `point · 2 ^ scale` in the common unit of the interval and the grid `10 ^ grid`. -/
def measure (i : Neighbourhood) (grid : Int) (point : Nat) : Nat :=
  point * (Nat.pow 2 i.scale.toNat * Nat.pow 10 (-grid).toNat)

/-- Whether `coefficient · 10 ^ grid` lies in the interval. -/
def contains (i : Neighbourhood) (grid : Int) (coefficient : Nat) : Bool :=
  let point := coefficient * i.step grid
  let low := i.measure grid i.low
  let high := i.measure grid i.high
  if i.closed then low ≤ point && point ≤ high else low < point && point < high

/-- The multiple of `10 ^ grid` in the interval that is nearest to the centre, the upper of two
equally near ones. Only the two neighbours of the centre need a look: if any multiple is inside,
one of them is. -/
def nearest? (i : Neighbourhood) (grid : Int) : Option Nat :=
  let centre := i.measure grid i.centre
  let step := i.step grid
  let below := centre / step
  match i.contains grid below, i.contains grid (below + 1) with
  | true, true => some (if 2 * centre < (2 * below + 1) * step then below else below + 1)
  | true, false => some below
  | false, true => some (below + 1)
  | false, false => none

/-- A grid on which the centre itself lies. -/
def finest (i : Neighbourhood) : Int :=
  min i.scale 0

/-- A grid so coarse that no multiple above it lies in the interval: `log₁₀ 2` is rounded up. -/
def coarsest (i : Neighbourhood) : Int :=
  ((Nat.log2 i.centre : Int) + 1 + i.scale) * 30103 / 100000 + 1

/-- The first decimal met on the way from the grid `levels` above the finest one down to the
finest one, where the centre itself is met. -/
def firstHit (i : Neighbourhood) : (levels : Nat) → Decimal
  | 0 => ⟨i.measure i.finest i.centre / i.step i.finest, i.finest⟩
  | levels + 1 =>
    let grid := i.finest + (levels + 1 : Nat)
    match i.nearest? grid with
    | some coefficient => ⟨coefficient, grid⟩
    | none => i.firstHit levels

end Neighbourhood

/-- The shortest decimal that rounds to `mantissa · 2 ^ exponent`, and `0` for zero. -/
def shortest (mantissa : Nat) (exponent : Int) : Decimal :=
  if mantissa = 0 then
    ⟨0, 0⟩
  else
    let i := Neighbourhood.ofDouble mantissa exponent
    i.firstHit (i.coarsest - i.finest).toNat

end Decimal

end Watershed
