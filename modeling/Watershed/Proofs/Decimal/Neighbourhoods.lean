import Mathlib
import Watershed.Decimal.Shortest

/-!
# Decimals in the neighbourhoods of doubles

The shortest decimal of a double lies among the numbers that round to the double, and no number
rounds to two doubles. So a double can be told from its shortest decimal. The neighbourhood of a
double ends where that of the next one begins. The common end belongs to the double with the even
mantissa, and of two doubles that follow one another one has an odd mantissa.
-/

set_option autoImplicit false

namespace Watershed.Decimal

/-- The number that a decimal stands for. -/
def value (d : Decimal) : ℚ :=
  d.coefficient * 10 ^ d.exponent

namespace Neighbourhood

/-- Whether a number lies in the interval. -/
def Holds (i : Neighbourhood) (v : ℚ) : Prop :=
  if i.closed then i.low * 2 ^ i.scale ≤ v ∧ v ≤ i.high * 2 ^ i.scale
  else i.low * 2 ^ i.scale < v ∧ v < i.high * 2 ^ i.scale

/-- A number in the interval lies between its ends. -/
theorem Holds.bounds {i : Neighbourhood} {v : ℚ} (h : i.Holds v) :
    i.low * 2 ^ i.scale ≤ v ∧ v ≤ i.high * 2 ^ i.scale := by
  unfold Holds at h
  split at h
  · exact h
  · exact ⟨h.1.le, h.2.le⟩

/-- Only a closed interval holds one of its ends. -/
theorem Holds.closed_of_end {i : Neighbourhood} {v : ℚ} (h : i.Holds v)
    (hend : v = i.low * 2 ^ i.scale ∨ v = i.high * 2 ^ i.scale) : i.closed = true := by
  by_contra hopen
  rw [Holds, if_neg hopen] at h
  rcases hend with rfl | rfl
  · exact lt_irrefl _ h.1
  · exact lt_irrefl _ h.2

/-! ## Points of a grid -/

/-- The unit in which both the points of a grid and those of the interval are whole numbers. -/
def unit (i : Neighbourhood) (grid : ℤ) : ℚ :=
  10 ^ (-grid).toNat * 2 ^ (-i.scale).toNat

/-- The common unit is positive. -/
theorem unit_pos (i : Neighbourhood) (grid : ℤ) : 0 < i.unit grid := by
  unfold unit
  positivity

/-- A power of either sign is a whole power, once it is multiplied by the power that its negative
part asks for. -/
theorem zpow_mul_pow_toNat {b : ℚ} (hb : b ≠ 0) (e : ℤ) :
    b ^ e * b ^ (-e).toNat = b ^ e.toNat := by
  rw [← zpow_natCast, ← zpow_natCast, ← zpow_add₀ hb]
  congr 1
  omega

/-- A point of the grid is a whole number in the common unit. -/
theorem value_mul_unit (i : Neighbourhood) (grid : ℤ) (coefficient : ℕ) :
    value ⟨coefficient, grid⟩ * i.unit grid = (coefficient * i.step grid : ℕ) := by
  have hten := zpow_mul_pow_toNat (b := 10) (by norm_num) grid
  have hstep : i.step grid = 10 ^ grid.toNat * 2 ^ (-i.scale).toNat := rfl
  rw [hstep]
  push_cast
  rw [← hten, value, unit]
  ring

/-- A point of the interval is a whole number in the common unit. -/
theorem point_mul_unit (i : Neighbourhood) (grid : ℤ) (point : ℕ) :
    (point * 2 ^ i.scale : ℚ) * i.unit grid = (i.measure grid point : ℕ) := by
  have htwo := zpow_mul_pow_toNat (b := 2) (by norm_num) i.scale
  have hmeasure : i.measure grid point = point * (2 ^ i.scale.toNat * 10 ^ (-grid).toNat) := rfl
  rw [hmeasure]
  push_cast
  rw [← htwo, unit]
  ring

/-- The test on whole numbers says whether a point of a grid lies in the interval. -/
theorem contains_iff (i : Neighbourhood) (grid : ℤ) (coefficient : ℕ) :
    i.contains grid coefficient = true ↔ i.Holds (value ⟨coefficient, grid⟩) := by
  have hunit := i.unit_pos grid
  have hle : ∀ a b : ℚ, a ≤ b ↔ a * i.unit grid ≤ b * i.unit grid :=
    fun a b => (mul_le_mul_iff_of_pos_right hunit).symm
  have hlt : ∀ a b : ℚ, a < b ↔ a * i.unit grid < b * i.unit grid :=
    fun a b => (mul_lt_mul_iff_of_pos_right hunit).symm
  unfold contains Holds
  split
  · rw [hle, hle (value _), value_mul_unit, point_mul_unit, point_mul_unit, Nat.cast_le,
      Nat.cast_le, Bool.and_eq_true, decide_eq_true_eq, decide_eq_true_eq]
  · rw [hlt, hlt (value _), value_mul_unit, point_mul_unit, point_mul_unit, Nat.cast_lt,
      Nat.cast_lt, Bool.and_eq_true, decide_eq_true_eq, decide_eq_true_eq]

/-- The nearest multiple, if there is one, lies in the interval. -/
theorem contains_of_nearest? {i : Neighbourhood} {grid : ℤ} {coefficient : ℕ}
    (h : i.nearest? grid = some coefficient) : i.contains grid coefficient = true := by
  unfold nearest? at h
  simp only at h
  split at h
  · rename_i hbelow habove
    obtain rfl := Option.some.inj h
    split
    · exact hbelow
    · exact habove
  · rename_i hbelow _
    obtain rfl := Option.some.inj h
    exact hbelow
  · rename_i _ habove
    obtain rfl := Option.some.inj h
    exact habove
  · cases h

/-- On the finest grid the centre is met exactly. -/
theorem value_finest (i : Neighbourhood) :
    value ⟨i.measure i.finest i.centre / i.step i.finest, i.finest⟩ = i.centre * 2 ^ i.scale := by
  have hunit := i.unit_pos i.finest
  have hdvd : i.step i.finest ∣ i.measure i.finest i.centre := by
    have hwhole : i.finest.toNat = 0 := by
      unfold finest
      omega
    have hscale : (-i.scale).toNat = (-i.finest).toNat := by
      unfold finest
      omega
    have hstep : i.step i.finest = 2 ^ (-i.finest).toNat := by
      show 10 ^ i.finest.toNat * 2 ^ (-i.scale).toNat = _
      rw [hwhole, hscale, pow_zero, one_mul]
    have hpow : 2 ^ (-i.finest).toNat ∣ 10 ^ (-i.finest).toNat :=
      pow_dvd_pow_of_dvd (by norm_num) _
    rw [hstep]
    exact (hpow.mul_left _).mul_left _
  rw [← mul_left_inj' hunit.ne', value_mul_unit, point_mul_unit, Nat.div_mul_cancel hdvd]

/-- The search ends with a decimal in the interval, if the interval holds its centre. -/
theorem holds_firstHit {i : Neighbourhood} (hcentre : i.Holds (i.centre * 2 ^ i.scale))
    (levels : ℕ) : i.Holds (i.firstHit levels).value := by
  induction levels with
  | zero =>
    rw [firstHit, value_finest]
    exact hcentre
  | succ levels ih =>
    rw [firstHit]
    split
    · rename_i coefficient hnearest
      exact (contains_iff i _ coefficient).1 (contains_of_nearest? hnearest)
    · exact ih

/-! ## Neighbourhoods of doubles -/

/-- The interval of a double holds the double itself. -/
theorem holds_centre {mantissa : ℕ} (hpos : 0 < mantissa) (exponent : ℤ) :
    (ofDouble mantissa exponent).Holds
      ((ofDouble mantissa exponent).centre * 2 ^ (ofDouble mantissa exponent).scale) := by
  have hlow : (ofDouble mantissa exponent).low < (ofDouble mantissa exponent).centre := by
    show 4 * mantissa - (if _ then 1 else 2) < 4 * mantissa
    split <;> omega
  have hhigh : (ofDouble mantissa exponent).centre < (ofDouble mantissa exponent).high :=
    Nat.lt_add_of_pos_right (by norm_num)
  have hscale : (0 : ℚ) < 2 ^ (ofDouble mantissa exponent).scale := by positivity
  have habove := mul_lt_mul_of_pos_right (Nat.cast_lt.2 hlow) hscale
  have hbelow := mul_lt_mul_of_pos_right (Nat.cast_lt.2 hhigh) hscale
  unfold Holds
  split
  · exact ⟨habove.le, hbelow.le⟩
  · exact ⟨habove, hbelow⟩

end Neighbourhood

/-- Whether there is a double of this mantissa and exponent: the mantissa has its leading bit, or
the exponent is the least one. -/
def Double.IsCanonical (mantissa : ℕ) (exponent : ℤ) : Prop :=
  mantissa < hiddenBit ∧ exponent = leastExponent ∨
    hiddenBit ≤ mantissa ∧ mantissa < 2 * hiddenBit ∧ leastExponent ≤ exponent

namespace Neighbourhood

open Double (IsCanonical hiddenBit leastExponent)

section Order

variable {m m' : ℕ} {e e' : ℤ} (h : IsCanonical m e) (h' : IsCanonical m' e')

include h h'

/-- A double that comes before another one has no number behind the other's neighbourhood. If they
share an end, then one of the mantissas is odd. -/
theorem high_le_low (hlt : e < e' ∨ e = e' ∧ m < m') :
    (ofDouble m e).high ≤ (ofDouble m' e').low * 2 ^ (e' - e).toNat ∧
      ((ofDouble m e).high = (ofDouble m' e').low * 2 ^ (e' - e).toNat →
        m % 2 = 1 ∨ m' % 2 = 1) := by
  have hbit : hiddenBit = 4503599627370496 := rfl
  have hhigh : (ofDouble m e).high = 4 * m + 2 := rfl
  have hlow : (ofDouble m' e').low =
      4 * m' - (if m' = hiddenBit ∧ leastExponent < e' then 1 else 2) := rfl
  unfold IsCanonical at h h'
  rw [hhigh]
  rcases hlt with hlt | ⟨rfl, hlt⟩
  · -- The places of the higher exponent are at least twice as wide.
    have hleast : 4 * hiddenBit - 1 ≤ (ofDouble m' e').low := by
      rw [hlow]
      split <;> omega
    have hwide : 2 ^ 1 ≤ 2 ^ (e' - e).toNat := Nat.pow_le_pow_right (by norm_num) (by omega)
    have hplaces := Nat.mul_le_mul_left (ofDouble m' e').low hwide
    omega
  · -- On one exponent the next mantissa is the next whole number.
    rw [hlow, sub_self, Int.toNat_zero, pow_zero, mul_one, if_neg (by omega)]
    omega

/-- A number rounds to no more than one of two doubles. -/
theorem not_holds_of_lt (hlt : e < e' ∨ e = e' ∧ m < m') {v : ℚ} (hv : (ofDouble m e).Holds v)
    (hv' : (ofDouble m' e').Holds v) : False := by
  obtain ⟨hle, hodd⟩ := high_le_low h h' hlt
  have hscale : (0 : ℚ) < 2 ^ (e - 2) := by positivity
  have hscale' : (2 : ℚ) ^ (e' - 2) = 2 ^ (e' - e).toNat * 2 ^ (e - 2) := by
    rw [← zpow_natCast, ← zpow_add₀ (by norm_num)]
    congr 1
    omega
  have habove : v ≤ (ofDouble m e).high * 2 ^ (e - 2) := hv.bounds.2
  have hbelow : ((ofDouble m' e').low * 2 ^ (e' - e).toNat : ℕ) * 2 ^ (e - 2) ≤ v := by
    have hlow := hv'.bounds.1
    push_cast
    rwa [mul_assoc, ← hscale']
  -- Both neighbourhoods have to be closed at the end they share.
  have heq : (ofDouble m e).high = (ofDouble m' e').low * 2 ^ (e' - e).toNat := by
    refine le_antisymm hle ?_
    exact_mod_cast le_of_mul_le_mul_right (hbelow.trans habove) hscale
  rw [← heq] at hbelow
  have hvalue : v = (ofDouble m e).high * 2 ^ (e - 2) := le_antisymm habove hbelow
  have hvalue' : v = (ofDouble m' e').low * 2 ^ (e' - 2) := by
    rw [hvalue, heq, hscale']
    push_cast
    ring
  have heven : decide (m % 2 = 0) = true := hv.closed_of_end (.inr hvalue)
  have heven' : decide (m' % 2 = 0) = true := hv'.closed_of_end (.inl hvalue')
  rw [decide_eq_true_eq] at heven heven'
  have := hodd heq
  omega

/-- No number lies in the neighbourhoods of two doubles. -/
theorem eq_of_holds {v : ℚ} (hv : (ofDouble m e).Holds v) (hv' : (ofDouble m' e').Holds v) :
    m = m' ∧ e = e' := by
  by_contra hne
  have hcases : (e < e' ∨ e = e' ∧ m < m') ∨ (e' < e ∨ e' = e ∧ m' < m) := by omega
  rcases hcases with hlt | hlt
  · exact not_holds_of_lt h h' hlt hv hv'
  · exact not_holds_of_lt h' h hlt hv' hv

end Order

end Neighbourhood

/-! ## Shortest decimals -/

/-- The shortest decimal of a double lies in its neighbourhood. -/
theorem holds_shortest {m : ℕ} (hpos : 0 < m) (e : ℤ) :
    (Neighbourhood.ofDouble m e).Holds (shortest m e).value := by
  rw [shortest, if_neg hpos.ne']
  exact Neighbourhood.holds_firstHit (Neighbourhood.holds_centre hpos e) _

/-- The shortest decimal of a positive double is positive. -/
theorem value_shortest_pos {m : ℕ} (hpos : 0 < m) (e : ℤ) : 0 < (shortest m e).value := by
  have hlow : 0 < (Neighbourhood.ofDouble m e).low := by
    show 0 < 4 * m - (if _ then 1 else 2)
    split <;> omega
  have hscale : (0 : ℚ) < 2 ^ (Neighbourhood.ofDouble m e).scale := by positivity
  have hbound := (holds_shortest hpos e).bounds.1
  exact lt_of_lt_of_le (mul_pos (Nat.cast_pos.2 hlow) hscale) hbound

/-- Doubles that have the same shortest decimal are equal, apart from the sign. -/
theorem eq_of_value_shortest_eq {m m' : ℕ} {e e' : ℤ} (h : Double.IsCanonical m e)
    (h' : Double.IsCanonical m' e') (heq : (shortest m e).value = (shortest m' e').value) :
    m = m' ∧ e = e' := by
  have hzero : ∀ e : ℤ, (shortest 0 e).value = 0 := fun e => by simp [shortest, value]
  rcases Nat.eq_zero_or_pos m with rfl | hpos <;> rcases Nat.eq_zero_or_pos m' with rfl | hpos'
  · -- Zero has the least exponent only.
    have hbit : Double.hiddenBit = 4503599627370496 := rfl
    unfold Double.IsCanonical at h h'
    omega
  · exact absurd (heq.symm.trans (hzero e)) (value_shortest_pos hpos' e').ne'
  · exact absurd (heq.trans (hzero e')) (value_shortest_pos hpos e).ne'
  · have hshared := holds_shortest hpos' e'
    rw [← heq] at hshared
    exact Neighbourhood.eq_of_holds h h' (holds_shortest hpos e) hshared

end Watershed.Decimal
