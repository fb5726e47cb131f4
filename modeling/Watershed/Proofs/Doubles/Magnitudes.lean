import Watershed.Proofs.Doubles.Rounding
import Watershed.Proofs.Reservoirs

/-!
# The arithmetic of numbers that are not negative

Numbers that are neither negative nor NaNs have a size: a rational number, or infinity. They compare
by their sizes. Their sums and products are the sums and products of the sizes, rounded
(`IsRounded`), so they do not pass any number that the exact results do not pass. In particular a
sum is no smaller than its summands, and a product is no larger than a factor if the other one is at
most one.
-/

set_option autoImplicit false

namespace Watershed

open Decimal.Double (IsCanonical leastExponent)
open Float.Model (UnpackedFloat)
open Float.Model.UnpackedFloat (decreaseExponent)
open Rounding (RoundsTo signed greatestExponent)

/-! ## Sizes and the order -/

/-- The size of a number; that of a NaN is of no interest. -/
def magnitude (x : Float) : WithTop ℚ :=
  match x.toModel.unpack with
  | .finite _ m e _ => ((m * 2 ^ e : ℚ) : WithTop ℚ)
  | .infinity _ => ⊤
  | .zero _ | .notANumber => 0

section Unpacked

variable {x y : Float} {s : UnpackedFloat.Sign}

/-- A finite number has the size of its mantissa and its exponent. -/
theorem magnitude_finite {m : ℕ} {e : ℤ} {hm : 0 < m} (h : x.toModel.unpack = .finite s m e hm) :
    magnitude x = ((m * 2 ^ e : ℚ) : WithTop ℚ) := by
  rw [magnitude, h]

/-- Infinities are larger than all numbers. -/
theorem magnitude_infinity (h : x.toModel.unpack = .infinity s) : magnitude x = ⊤ := by
  rw [magnitude, h]

/-- Both zeros have the size zero. -/
theorem magnitude_zero (h : x.toModel.unpack = .zero s) : magnitude x = 0 := by
  rw [magnitude, h]

/-- No size is negative. -/
theorem magnitude_nonneg (x : Float) : 0 ≤ magnitude x := by
  unfold magnitude
  split
  · exact WithTop.coe_nonneg.2 (by positivity)
  · exact le_top
  · exact le_rfl
  · exact le_rfl

/-- What a number that is not negative is taken apart into. -/
theorem nonNegative_iff :
    NonNegative x ↔ (∃ s, x.toModel.unpack = .zero s) ∨
      (∃ m e hm, x.toModel.unpack = .finite .positive m e hm) ∨
      x.toModel.unpack = .infinity .positive := by
  have hnan : x.isNaN = x.toModel.unpack.isNaN := rfl
  have hzero : (0.0 : Float).toModel.unpack = .zero .positive := rfl
  rw [NonNegative, hnan, lt_iff_compare_eq, hzero]
  cases x.toModel.unpack with
  | notANumber => simp [UnpackedFloat.isNaN]
  | infinity s => cases s <;> simp [UnpackedFloat.isNaN, UnpackedFloat.compare]
  | zero s => simp [UnpackedFloat.isNaN, UnpackedFloat.compare]
  | finite s m e hm => cases s <;> simp [UnpackedFloat.isNaN, UnpackedFloat.compare, hm]

/-- Numbers compare as what they are taken apart into. -/
theorem le_iff_compare :
    x ≤ y ↔ (x.toModel.unpack.compare y.toModel.unpack).any (·.isLE) = true := by
  show Float.le x y = true ↔ _
  rw [Float.le, decide_eq_true_iff]
  exact Iff.rfl

/-- Numbers that are not negative compare by their sizes. -/
theorem le_iff_magnitude_le (hx : NonNegative x) (hy : NonNegative y) :
    x ≤ y ↔ magnitude x ≤ magnitude y := by
  rw [le_iff_compare]
  rcases nonNegative_iff.1 hx with ⟨s, hx⟩ | ⟨m, e, hm, hx⟩ | hx
  · rw [magnitude_zero hx, iff_true_right (magnitude_nonneg y), hx]
    rcases nonNegative_iff.1 hy with ⟨s', hy⟩ | ⟨m', e', hm', hy⟩ | hy <;> rw [hy] <;> rfl
  · rcases nonNegative_iff.1 hy with ⟨s', hy⟩ | ⟨m', e', hm', hy⟩ | hy
    · have hsize : ¬((m * 2 ^ e : ℚ) : WithTop ℚ) ≤ 0 := by
        rw [not_le, WithTop.coe_pos]
        positivity
      rw [hx, hy, magnitude_finite hx, magnitude_zero hy]
      exact iff_of_false Bool.false_ne_true hsize
    · rw [hx, hy, magnitude_finite hx, magnitude_finite hy, WithTop.coe_le_coe,
        Rounding.mul_zpow_le_iff_of_canonical (Rounding.canonical_of_unpack hx).1
          (Rounding.canonical_of_unpack hy).1]
      show ((compare e e').then (compare m m')).isLE = true ↔ _
      rw [Ordering.isLE_then_iff_or, compare_lt_iff_lt, compare_eq_iff_eq, Nat.isLE_compare]
    · rw [hx, hy, magnitude_infinity hy]
      exact iff_of_true rfl le_top
  · rw [hx, magnitude_infinity hx, top_le_iff]
    rcases nonNegative_iff.1 hy with ⟨s', hy⟩ | ⟨m', e', hm', hy⟩ | hy
    · rw [hy, magnitude_zero hy]
      exact iff_of_false Bool.false_ne_true WithTop.zero_ne_top
    · rw [hy, magnitude_finite hy]
      exact iff_of_false Bool.false_ne_true WithTop.coe_ne_top
    · rw [hy, magnitude_infinity hy]
      exact iff_of_true rfl rfl

/-- A number that is not negative is infinite or one of the doubles. -/
theorem magnitude_eq_top_or (hx : NonNegative x) :
    magnitude x = ⊤ ∨ ∃ m e, IsCanonical m e ∧ e ≤ greatestExponent ∧
      magnitude x = ((m * 2 ^ e : ℚ) : WithTop ℚ) := by
  rcases nonNegative_iff.1 hx with ⟨s, hx⟩ | ⟨m, e, hm, hx⟩ | hx
  · refine .inr ⟨0, leastExponent, .inl ⟨by decide, rfl⟩, by decide, ?_⟩
    rw [magnitude_zero hx, Nat.cast_zero, zero_mul, WithTop.coe_zero]
  · obtain ⟨hcanonical, hgreatest⟩ := Rounding.canonical_of_unpack hx
    exact .inr ⟨m, e, hcanonical, hgreatest, magnitude_finite hx⟩
  · exact .inl (magnitude_infinity hx)

/-- Of the numbers that are not negative, all but infinity are finite. -/
theorem isFinite_iff (hx : NonNegative x) : x.isFinite = true ↔ magnitude x ≠ ⊤ := by
  have hfinite : x.isFinite = x.toModel.unpack.isFinite := rfl
  rcases nonNegative_iff.1 hx with ⟨s, hx⟩ | ⟨m, e, hm, hx⟩ | hx
  · rw [hfinite, hx, magnitude_zero hx]
    exact iff_of_true rfl WithTop.zero_ne_top
  · rw [hfinite, hx, magnitude_finite hx]
    exact iff_of_true rfl WithTop.coe_ne_top
  · rw [hfinite, hx, magnitude_infinity hx]
    exact iff_of_false Bool.false_ne_true (not_not_intro rfl)

/-- A number that is not negative and has an infinite size is the positive infinity. -/
theorem unpack_of_magnitude_eq_top (hx : NonNegative x) (htop : magnitude x = ⊤) :
    x.toModel.unpack = .infinity .positive := by
  rcases nonNegative_iff.1 hx with ⟨s, hx⟩ | ⟨m, e, hm, hx⟩ | hx
  · rw [magnitude_zero hx] at htop
    exact absurd htop WithTop.zero_ne_top
  · rw [magnitude_finite hx] at htop
    exact absurd htop WithTop.coe_ne_top
  · exact hx

end Unpacked

/-! ## Rounded results -/

/-- Whether a number is what a size can be rounded to: it is not negative, and no number lies
strictly between them. -/
structure IsRounded (v : WithTop ℚ) (x : Float) : Prop where
  nonNegative : NonNegative x
  above {y : Float} (hy : NonNegative y) (hle : magnitude y ≤ v) : y ≤ x
  below {y : Float} (hy : NonNegative y) (hle : v ≤ magnitude y) : x ≤ y

/-- The size of a number is rounded to that number. -/
theorem isRounded_magnitude {x : Float} (hx : NonNegative x) : IsRounded (magnitude x) x where
  nonNegative := hx
  above hy hle := (le_iff_magnitude_le hy hx).2 hle
  below hy hle := (le_iff_magnitude_le hx hy).2 hle

/-- The number that is put together from parts. -/
def packed (u : UnpackedFloat) : Float :=
  Float.ofModel (Float.Model.pack u)

/-- A number is put together again from what it was taken apart into. -/
theorem packed_unpack (x : Float) : packed x.toModel.unpack = x := by
  rw [packed, pack_unpack]

/-- A sum is put together from the sum of the parts. -/
theorem add_eq_packed (x y : Float) :
    x + y = packed (.add .binary64 x.toModel.unpack y.toModel.unpack) :=
  rfl

/-- A difference is put together from the difference of the parts. -/
theorem sub_eq_packed (x y : Float) :
    x - y = packed (.sub .binary64 x.toModel.unpack y.toModel.unpack) :=
  rfl

/-- A product is put together from the product of the parts. -/
theorem mul_eq_packed (x y : Float) :
    x * y = packed (.mul .binary64 x.toModel.unpack y.toModel.unpack) :=
  rfl

/-- Zero is rounded to either of the zeros. -/
theorem isRounded_packed_zero (s : UnpackedFloat.Sign) : IsRounded 0 (packed (.zero s)) := by
  have hunpack : (packed (.zero s)).toModel.unpack = .zero s := by cases s <;> rfl
  rw [← magnitude_zero hunpack]
  exact isRounded_magnitude (nonNegative_iff.2 (.inl ⟨s, hunpack⟩))

/-- An infinite size is rounded to the positive infinity. -/
theorem isRounded_packed_infinity : IsRounded ⊤ (packed (.infinity .positive)) := by
  have hunpack : (packed (.infinity .positive)).toModel.unpack = .infinity .positive := rfl
  rw [← magnitude_infinity hunpack]
  exact isRounded_magnitude (nonNegative_iff.2 (.inr (.inr hunpack)))

section Signed

variable {m : ℕ} {e : ℤ}

/-- A double that was put together is taken apart into its parts, unless it is too large. -/
theorem unpack_packed_signed (h : IsCanonical m e) :
    (packed (signed .positive m e)).toModel.unpack =
      if e ≤ greatestExponent then signed .positive m e else .infinity .positive :=
  Rounding.unpack_pack_signed .positive h

/-- A double with a positive sign is not negative. -/
theorem nonNegative_packed_signed (h : IsCanonical m e) :
    NonNegative (packed (signed .positive m e)) := by
  rw [nonNegative_iff, unpack_packed_signed h]
  unfold signed
  split
  · split
    · exact .inl ⟨_, rfl⟩
    · rename_i hm
      exact .inr (.inl ⟨m, e, Nat.pos_of_ne_zero hm, rfl⟩)
  · exact .inr (.inr rfl)

/-- A double has the size it stands for as it is stored, unless it is too large. -/
theorem magnitude_packed_signed (h : IsCanonical m e) :
    magnitude (packed (signed .positive m e)) =
      if e ≤ greatestExponent then ((m * 2 ^ e : ℚ) : WithTop ℚ) else ⊤ := by
  rw [magnitude, unpack_packed_signed h]
  unfold signed
  split_ifs with hgreatest hzero
  · simp [hzero]
  · rfl
  · rfl

/-- What a number rounds to is what it is rounded to as it is stored, be it as infinity. -/
theorem isRounded_packed_signed {v : ℚ} (h : RoundsTo v m e) :
    IsRounded v (packed (signed .positive m e)) := by
  have hnonNegative := nonNegative_packed_signed h.canonical
  have hmagnitude := magnitude_packed_signed h.canonical
  refine ⟨hnonNegative, fun hy hle => ?_, fun hy hle => ?_⟩
  · rw [le_iff_magnitude_le hy hnonNegative, hmagnitude]
    split
    · rcases magnitude_eq_top_or hy with htop | ⟨m', e', hcanonical, -, hsize⟩
      · rw [htop, top_le_iff] at hle
        exact absurd hle WithTop.coe_ne_top
      · rw [hsize, WithTop.coe_le_coe] at hle ⊢
        exact h.above hcanonical hle
    · exact le_top
  · rw [le_iff_magnitude_le hnonNegative hy, hmagnitude]
    rcases magnitude_eq_top_or hy with htop | ⟨m', e', hcanonical, hgreatest, hsize⟩
    · rw [htop]
      exact le_top
    · -- There is a number that is not too large and that the result does not pass.
      rw [hsize, WithTop.coe_le_coe] at hle
      have hbelow := h.below hcanonical hle
      have horder := (Rounding.mul_zpow_le_iff_of_canonical h.canonical hcanonical).1 hbelow
      rw [if_pos (by omega), hsize, WithTop.coe_le_coe]
      exact hbelow

end Signed

/-- What is normalized is rounded from its exact size. -/
theorem isRounded_packed_normalize (mantissa : ℕ) (exponent : ℤ) :
    IsRounded ((mantissa * 2 ^ exponent : ℚ) : WithTop ℚ)
      (packed (.normalize .binary64 mantissa exponent .positive)) := by
  rcases Nat.eq_zero_or_pos mantissa with rfl | hpos
  · rw [Nat.cast_zero, zero_mul, WithTop.coe_zero]
    exact isRounded_packed_zero .positive
  · obtain ⟨m, e, hrounds, hround⟩ := Rounding.exists_round .positive hpos exponent
    have hgt : compare (mantissa : ℤ) 0 = .gt := compare_gt_iff_gt.2 (Int.natCast_pos.2 hpos)
    simp only [UnpackedFloat.normalize, hgt, Int.toNat_natCast, hround]
    exact isRounded_packed_signed hrounds

/-- Narrower places take a larger mantissa. -/
theorem decreaseExponent_mul (m : ℕ) {e t : ℤ} (h : t ≤ e) :
    ((decreaseExponent m e t).1 : ℚ) * 2 ^ t = m * 2 ^ e := by
  rw [Rounding.mul_zpow_eq m h, decreaseExponent, Nat.shiftLeft_eq]

/-! ## Operations on finite numbers -/

section Finite

variable {x y : Float} {m m' : ℕ} {e e' : ℤ} {hm : 0 < m} {hm' : 0 < m'}
  (hx : x.toModel.unpack = .finite .positive m e hm)
  (hy : y.toModel.unpack = .finite .positive m' e' hm')

include hx hy

/-- The sum of finite numbers is the sum of their sizes, rounded. -/
theorem isRounded_add_of_finite : IsRounded (magnitude x + magnitude y) (x + y) := by
  have hsize : (m * 2 ^ e + m' * 2 ^ e' : ℚ) = ((decreaseExponent m e (min e e')).1 +
      (decreaseExponent m' e' (min e e')).1 : ℕ) * 2 ^ min e e' := by
    rw [Nat.cast_add, add_mul, decreaseExponent_mul m (min_le_left e e'),
      decreaseExponent_mul m' (min_le_right e e')]
  rw [magnitude_finite hx, magnitude_finite hy, ← WithTop.coe_add, hsize, add_eq_packed, hx, hy]
  exact isRounded_packed_normalize _ _

/-- The difference of finite numbers is not negative if the larger one comes first. -/
theorem nonNegative_sub_of_finite (hle : magnitude y ≤ magnitude x) : NonNegative (x - y) := by
  have haligned : (decreaseExponent m' e' (min e e')).1 ≤ (decreaseExponent m e (min e e')).1 := by
    rw [magnitude_finite hx, magnitude_finite hy, WithTop.coe_le_coe,
      ← decreaseExponent_mul m (min_le_left e e'), ← decreaseExponent_mul m' (min_le_right e e'),
      mul_le_mul_iff_of_pos_right (by positivity), Nat.cast_le] at hle
    exact hle
  have hdifference : UnpackedFloat.sub .binary64 x.toModel.unpack y.toModel.unpack =
      .normalize .binary64 (((decreaseExponent m e (min e e')).1 -
        (decreaseExponent m' e' (min e e')).1 : ℕ) : ℤ) (min e e') .positive := by
    rw [hx, hy, Nat.cast_sub haligned]
    rfl
  rw [sub_eq_packed, hdifference]
  exact (isRounded_packed_normalize _ _).nonNegative

/-- The product of finite numbers is the product of their sizes, rounded. -/
theorem isRounded_mul_of_finite : IsRounded (magnitude x * magnitude y) (x * y) := by
  have hplaces : e + e' ≤ Rounding.target (m * m') (e + e') :=
    Rounding.add_le_target_mul (Rounding.canonical_of_unpack hx).1
      (Rounding.canonical_of_unpack hy).1 hm hm'
  obtain ⟨m'', e'', hrounds, hround⟩ :=
    Rounding.exists_roundWithAccuracy .positive (Nat.mul_pos hm hm') hplaces
  have hsize : (m * 2 ^ e * (m' * 2 ^ e') : ℚ) = (m * m' : ℕ) * 2 ^ (e + e') := by
    rw [zpow_add₀ (by norm_num)]
    push_cast
    ring
  have hproduct : UnpackedFloat.mul .binary64 x.toModel.unpack y.toModel.unpack =
      signed .positive m'' e'' := by
    rw [hx, hy]
    exact hround
  rw [magnitude_finite hx, magnitude_finite hy, ← WithTop.coe_mul, hsize, mul_eq_packed, hproduct]
  exact isRounded_packed_signed hrounds

end Finite

/-! ## Operations -/

section Operations

variable {x y : Float} (hx : NonNegative x) (hy : NonNegative y)

include hx hy

/-- A sum is the sum of the sizes, rounded. -/
theorem isRounded_add : IsRounded (magnitude x + magnitude y) (x + y) := by
  rcases nonNegative_iff.1 hx with ⟨s, hx'⟩ | ⟨m, e, hm, hx'⟩ | hx'
  · rw [magnitude_zero hx', zero_add]
    rcases nonNegative_iff.1 hy with ⟨s', hy'⟩ | ⟨m', e', hm', hy'⟩ | hy'
    · rw [magnitude_zero hy', add_eq_packed, hx', hy']
      cases s <;> cases s' <;> exact isRounded_packed_zero _
    · have hsum : x + y = y := by
        rw [add_eq_packed, hx', hy', ← packed_unpack y, hy']
        rfl
      rw [hsum]
      exact isRounded_magnitude hy
    · rw [magnitude_infinity hy', add_eq_packed, hx', hy']
      exact isRounded_packed_infinity
  · rcases nonNegative_iff.1 hy with ⟨s', hy'⟩ | ⟨m', e', hm', hy'⟩ | hy'
    · have hsum : x + y = x := by
        rw [add_eq_packed, hx', hy', ← packed_unpack x, hx']
        rfl
      rw [magnitude_zero hy', add_zero, hsum]
      exact isRounded_magnitude hx
    · exact isRounded_add_of_finite hx' hy'
    · rw [magnitude_infinity hy', add_top, add_eq_packed, hx', hy']
      exact isRounded_packed_infinity
  · rw [magnitude_infinity hx', top_add, add_eq_packed, hx']
    rcases nonNegative_iff.1 hy with ⟨s', hy'⟩ | ⟨m', e', hm', hy'⟩ | hy' <;> rw [hy'] <;>
      exact isRounded_packed_infinity

/-- A difference is not negative if it is that of a number and a smaller one. -/
theorem nonNegative_sub (hfinite : magnitude y ≠ ⊤) (hle : y ≤ x) : NonNegative (x - y) := by
  rw [le_iff_magnitude_le hy hx] at hle
  rcases nonNegative_iff.1 hy with ⟨s', hy'⟩ | ⟨m', e', hm', hy'⟩ | hy'
  · rcases nonNegative_iff.1 hx with ⟨s, hx'⟩ | ⟨m, e, hm, hx'⟩ | hx'
    · rw [sub_eq_packed, hx', hy']
      cases s <;> cases s' <;> exact (isRounded_packed_zero _).nonNegative
    · have hdifference : x - y = x := by
        rw [sub_eq_packed, hx', hy', ← packed_unpack x, hx']
        rfl
      rw [hdifference]
      exact hx
    · rw [sub_eq_packed, hx', hy']
      exact isRounded_packed_infinity.nonNegative
  · rcases nonNegative_iff.1 hx with ⟨s, hx'⟩ | ⟨m, e, hm, hx'⟩ | hx'
    · rw [magnitude_finite hy', magnitude_zero hx', ← WithTop.coe_zero, WithTop.coe_le_coe] at hle
      have hpos : (0 : ℚ) < m' * 2 ^ e' := by positivity
      exact absurd hle hpos.not_ge
    · exact nonNegative_sub_of_finite hx' hy' hle
    · rw [sub_eq_packed, hx', hy']
      exact isRounded_packed_infinity.nonNegative
  · exact absurd (magnitude_infinity hy') hfinite

/-- A product of finite numbers is the product of the sizes, rounded. -/
theorem isRounded_mul (hfinite : magnitude x ≠ ⊤) (hfinite' : magnitude y ≠ ⊤) :
    IsRounded (magnitude x * magnitude y) (x * y) := by
  rcases nonNegative_iff.1 hx with ⟨s, hx'⟩ | ⟨m, e, hm, hx'⟩ | hx'
  · rw [magnitude_zero hx', zero_mul, mul_eq_packed, hx']
    rcases nonNegative_iff.1 hy with ⟨s', hy'⟩ | ⟨m', e', hm', hy'⟩ | hy'
    · rw [hy']
      exact isRounded_packed_zero _
    · rw [hy']
      exact isRounded_packed_zero _
    · exact absurd (magnitude_infinity hy') hfinite'
  · rcases nonNegative_iff.1 hy with ⟨s', hy'⟩ | ⟨m', e', hm', hy'⟩ | hy'
    · rw [magnitude_zero hy', mul_zero, mul_eq_packed, hx', hy']
      exact isRounded_packed_zero _
    · exact isRounded_mul_of_finite hx' hy'
    · exact absurd (magnitude_infinity hy') hfinite'
  · exact absurd (magnitude_infinity hx') hfinite

/-- Adding makes a number no smaller. -/
theorem le_add_of_nonNegative : x ≤ x + y :=
  (isRounded_add hx hy).above hx (le_add_of_nonneg_right (magnitude_nonneg y))

/-- Multiplying a finite number by at most one makes it no larger. -/
theorem mul_le_of_le_one (hfinite : magnitude x ≠ ⊤) (hle : y ≤ 1.0) :
    NonNegative (x * y) ∧ x * y ≤ x := by
  have hone : magnitude 1.0 = ((1 : ℚ) : WithTop ℚ) := by
    have hunpack : (1.0 : Float).toModel.unpack =
        .finite .positive (2 ^ 52) (-52) (by decide) := rfl
    rw [magnitude_finite hunpack]
    norm_num
  rw [le_iff_magnitude_le hy nonNegative_one, hone] at hle
  have hfinite' : magnitude y ≠ ⊤ := ne_top_of_le_ne_top WithTop.coe_ne_top hle
  have hproduct := isRounded_mul hx hy hfinite hfinite'
  obtain ⟨a, ha⟩ := WithTop.ne_top_iff_exists.1 hfinite
  obtain ⟨b, hb⟩ := WithTop.ne_top_iff_exists.1 hfinite'
  refine ⟨hproduct.nonNegative, hproduct.below hx ?_⟩
  have hnonneg := magnitude_nonneg x
  rw [← ha, ← WithTop.coe_zero, WithTop.coe_le_coe] at hnonneg
  rw [← hb, WithTop.coe_le_coe] at hle
  rw [← ha, ← hb, ← WithTop.coe_mul, WithTop.coe_le_coe]
  exact mul_le_of_le_one_right hnonneg hle

end Operations

end Watershed
