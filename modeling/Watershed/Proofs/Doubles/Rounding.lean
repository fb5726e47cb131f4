import Watershed.Proofs.Decimal.Neighbourhoods
import Watershed.Proofs.Doubles

/-!
# Rounding to doubles

The exact result of an operation is a whole number of places of some width. It is rounded to places
of the width that doubles of its size have: the mantissa is cut off, and raised by one if what was
cut off weighs enough. Whatever the weight, no double lies strictly between the exact result and the
rounded one (`RoundsTo`), and this is all that the order of results depends on.
-/

set_option autoImplicit false

namespace Watershed.Rounding

open Decimal.Double (IsCanonical hiddenBit leastExponent)
open Float.Model (Format UnpackedFloat totalExponent)
open Float.Model.UnpackedFloat (Accuracy ExtendedMantissa packComponents roundWithAccuracy
  shiftToTargetExponent unpackExponent unpackMantissa unpackSign)

/-! ## The order of doubles -/

/-- Wide places are a whole number of narrower places. -/
theorem mul_zpow_eq (b : ℕ) {x y : ℤ} (h : x ≤ y) :
    (b : ℚ) * 2 ^ y = (b * 2 ^ (y - x).toNat : ℕ) * 2 ^ x := by
  have hpow : (2 : ℚ) ^ y = 2 ^ (y - x).toNat * 2 ^ x := by
    rw [← zpow_natCast, ← zpow_add₀ (by norm_num)]
    congr 1
    omega
  push_cast
  rw [hpow, mul_assoc]

/-- Whole numbers of places compare as numbers of the narrower places. -/
theorem mul_zpow_le_iff {a b : ℕ} {x y : ℤ} (h : x ≤ y) :
    (a : ℚ) * 2 ^ x ≤ b * 2 ^ y ↔ a ≤ b * 2 ^ (y - x).toNat := by
  rw [mul_zpow_eq b h, mul_le_mul_iff_of_pos_right (by positivity), Nat.cast_le]

/-- Whole numbers of places compare as numbers of the narrower places, the wider ones being first.
-/
theorem mul_zpow_ge_iff {a b : ℕ} {x y : ℤ} (h : x ≤ y) :
    (b : ℚ) * 2 ^ y ≤ a * 2 ^ x ↔ b * 2 ^ (y - x).toNat ≤ a := by
  rw [mul_zpow_eq b h, mul_le_mul_iff_of_pos_right (by positivity), Nat.cast_le]

section Order

variable {m m' : ℕ} {e e' : ℤ}

/-- No double has a smaller exponent than the least one. -/
theorem leastExponent_le (h : IsCanonical m e) : leastExponent ≤ e := by
  unfold IsCanonical at h
  omega

/-- The mantissas of doubles have at most fifty-three bits. -/
theorem mantissa_lt (h : IsCanonical m e) : m < hiddenBit * 2 := by
  unfold IsCanonical at h
  omega

/-- Above the least exponent the mantissas of doubles have fifty-three bits. -/
theorem hiddenBit_le (h : IsCanonical m e) (hlt : leastExponent < e) : hiddenBit ≤ m := by
  unfold IsCanonical at h
  omega

/-- A double with a larger exponent is larger. -/
theorem lt_of_exponent_lt (h : IsCanonical m e) (h' : IsCanonical m' e') (hlt : e < e') :
    (m : ℚ) * 2 ^ e < m' * 2 ^ e' := by
  have hwide : 2 ≤ 2 ^ (e' - e).toNat := Nat.le_self_pow (by omega) 2
  have hhidden : hiddenBit ≤ m' := hiddenBit_le h' ((leastExponent_le h).trans_lt hlt)
  rw [← not_le, mul_zpow_ge_iff hlt.le, not_le]
  exact (mantissa_lt h).trans_le (Nat.mul_le_mul hhidden hwide)

/-- Doubles compare by their exponents, and by their mantissas if these are equal. -/
theorem mul_zpow_le_iff_of_canonical (h : IsCanonical m e) (h' : IsCanonical m' e') :
    (m : ℚ) * 2 ^ e ≤ m' * 2 ^ e' ↔ e < e' ∨ e = e' ∧ m ≤ m' := by
  rcases lt_trichotomy e e' with hlt | rfl | hgt
  · exact iff_of_true (lt_of_exponent_lt h h' hlt).le (.inl hlt)
  · rw [mul_le_mul_iff_of_pos_right (by positivity), Nat.cast_le]
    simp
  · refine iff_of_false (lt_of_exponent_lt h' h hgt).not_ge ?_
    omega

end Order

/-! ## Cutting off a mantissa -/

/-- Whether a mantissa, together with what was cut off from it, is at most a whole number. -/
def AtMost (c : ℕ) (em : ExtendedMantissa) : Prop :=
  em.mantissa < c ∨ em = ⟨c, false, false⟩

/-- The half of an extended mantissa is at most the half of its bound. -/
theorem AtMost.shiftRightOne {c : ℕ} {em : ExtendedMantissa} (h : AtMost (2 * c) em) :
    AtMost c em.shiftRightOne := by
  rcases h with hlt | rfl
  · left
    show em.mantissa / 2 < c
    omega
  · right
    simp [ExtendedMantissa.shiftRightOne]

/-- An extended mantissa without its last places is at most its bound without as many places. -/
theorem AtMost.shiftRight {c k : ℕ} {em : ExtendedMantissa} (h : AtMost (c * 2 ^ k) em) :
    AtMost c (em >>> k) := by
  induction k generalizing c with
  | zero =>
    rw [pow_zero, mul_one] at h
    exact h
  | succ k ih =>
    rw [Nat.pow_succ', ← mul_assoc, mul_comm c] at h
    exact (ih h).shiftRightOne

/-- Rounding does not pass a whole number from below. -/
theorem AtMost.roundedMantissa_le {c : ℕ} {em : ExtendedMantissa} (h : AtMost c em) :
    em.roundedMantissa ≤ c := by
  rcases h with hlt | rfl
  · have hraised : em.roundedMantissa ≤ em.mantissa + 1 := by
      unfold ExtendedMantissa.roundedMantissa Accuracy.roundToNearestEven
      split <;> omega
    omega
  · exact le_rfl

/-- An extended mantissa without its last places is at least a whole number that it was as many
places above. -/
theorem le_mantissa_shiftRight {c k : ℕ} {em : ExtendedMantissa} (h : c * 2 ^ k ≤ em.mantissa) :
    c ≤ (em >>> k).mantissa := by
  induction k generalizing c with
  | zero =>
    rw [pow_zero, mul_one] at h
    exact h
  | succ k ih =>
    rw [Nat.pow_succ', ← mul_assoc, mul_comm c] at h
    have hhalf := ih h
    show c ≤ (em >>> k).mantissa / 2
    omega

/-- A mantissa without its last places, rounded. -/
def cutOff (mantissa places : ℕ) : ℕ :=
  (ExtendedMantissa.ofMantissaAndAccuracy mantissa .exact >>> places).roundedMantissa

/-- Cutting off places does not pass a whole number from below. -/
theorem cutOff_le {c mantissa places : ℕ} (h : mantissa ≤ c * 2 ^ places) :
    cutOff mantissa places ≤ c := by
  have hstart : AtMost (c * 2 ^ places) (.ofMantissaAndAccuracy mantissa .exact) := by
    rcases h.lt_or_eq with hlt | rfl
    · exact .inl hlt
    · exact .inr rfl
  exact hstart.shiftRight.roundedMantissa_le

/-- Cutting off places does not pass a whole number from above. -/
theorem le_cutOff {c mantissa places : ℕ} (h : c * 2 ^ places ≤ mantissa) :
    c ≤ cutOff mantissa places := by
  have hstart : c * 2 ^ places ≤
      (ExtendedMantissa.ofMantissaAndAccuracy mantissa .exact).mantissa := h
  refine (le_mantissa_shiftRight hstart).trans ?_
  unfold cutOff ExtendedMantissa.roundedMantissa Accuracy.roundToNearestEven
  split <;> omega

/-! ## Numbers and what they are rounded to -/

/-- Whether a double is what a number can be rounded to: no double lies strictly between them. -/
structure RoundsTo (v : ℚ) (m : ℕ) (e : ℤ) : Prop where
  canonical : IsCanonical m e
  above {m' : ℕ} {e' : ℤ} (h : IsCanonical m' e') (hle : m' * 2 ^ e' ≤ v) :
    (m' : ℚ) * 2 ^ e' ≤ m * 2 ^ e
  below {m' : ℕ} {e' : ℤ} (h : IsCanonical m' e') (hle : v ≤ m' * 2 ^ e') :
    (m : ℚ) * 2 ^ e ≤ m' * 2 ^ e'

/-- The exponent of the doubles of the size of a number. -/
def target (mantissa : ℕ) (exponent : ℤ) : ℤ :=
  Format.binary64.targetExponent (totalExponent mantissa exponent)

/-- The exponent leaves fifty-three bits for the mantissa, but is not below the least one. -/
theorem target_eq (mantissa : ℕ) (exponent : ℤ) :
    target mantissa exponent = max (mantissa.log2 + exponent - 52) leastExponent := by
  show max ((mantissa.log2 : ℤ) + 1 + exponent - (53 : ℕ)) (-1074) = _
  unfold leastExponent
  omega

/-- The exponent of the doubles of any size is at least the least one. -/
theorem leastExponent_le_target (mantissa : ℕ) (exponent : ℤ) :
    leastExponent ≤ target mantissa exponent := by
  rw [target_eq]
  exact le_max_right _ _

/-- The places of a product are no wider than those of the doubles of its size. -/
theorem add_le_target_mul {m m' : ℕ} {e e' : ℤ} (h : IsCanonical m e)
    (h' : IsCanonical m' e') (hm : 0 < m) (hm' : 0 < m') :
    e + e' ≤ target (m * m') (e + e') := by
  have hlog (hfull : hiddenBit ≤ m * m') : 52 ≤ (m * m').log2 :=
    (Nat.le_log2 (Nat.mul_pos hm hm').ne').2 hfull
  rw [target_eq]
  rcases h with ⟨-, rfl⟩ | ⟨hfull, -, -⟩
  · rcases h' with ⟨-, rfl⟩ | ⟨hfull, -, -⟩
    · exact le_max_of_le_right (by decide)
    · have hbits := hlog (hfull.trans (Nat.le_mul_of_pos_left m' hm))
      omega
  · have hbits := hlog (hfull.trans (Nat.le_mul_of_pos_right m hm'))
    omega

section CutOff

variable {mantissa places : ℕ} {exponent : ℤ} (hpos : 0 < mantissa)
  (hplaces : exponent + places = target mantissa exponent)

include hplaces

/-- A number has no more places than the mantissas of doubles. -/
theorem lt_of_target : mantissa < hiddenBit * 2 * 2 ^ places := by
  have hlog : mantissa.log2 + 1 ≤ 53 + places := by
    rw [target_eq] at hplaces
    omega
  calc mantissa < 2 ^ (mantissa.log2 + 1) := Nat.lt_log2_self
    _ ≤ 2 ^ (53 + places) := Nat.pow_le_pow_right (by norm_num) hlog
    _ = hiddenBit * 2 * 2 ^ places := pow_add 2 53 places

include hpos

/-- Above the least exponent a number has as many places as the mantissas of doubles. -/
theorem le_of_target (hleast : leastExponent < target mantissa exponent) :
    hiddenBit * 2 ^ places ≤ mantissa := by
  have hlog : 52 + places = mantissa.log2 := by
    rw [target_eq] at hplaces hleast
    omega
  calc hiddenBit * 2 ^ places = 2 ^ (52 + places) := (pow_add 2 52 places).symm
    _ = 2 ^ mantissa.log2 := by rw [hlog]
    _ ≤ mantissa := Nat.log2_self_le hpos.ne'

/-- A double that a number is not below is not above what is left of the number either. -/
theorem le_cutOff_of_canonical {m : ℕ} {e : ℤ} (h : IsCanonical m e)
    (hle : m * 2 ^ e ≤ (mantissa * 2 ^ exponent : ℚ)) :
    (m : ℚ) * 2 ^ e ≤ cutOff mantissa places * 2 ^ target mantissa exponent := by
  have hexponent : exponent ≤ target mantissa exponent := by omega
  rcases lt_trichotomy e (target mantissa exponent) with hlt | rfl | hgt
  · have hwide : 2 ≤ 2 ^ (target mantissa exponent - e).toNat := Nat.le_self_pow (by omega) 2
    have hcut : hiddenBit ≤ cutOff mantissa places :=
      le_cutOff (le_of_target hpos hplaces ((leastExponent_le h).trans_lt hlt))
    rw [mul_zpow_le_iff hlt.le]
    exact (mantissa_lt h).le.trans (Nat.mul_le_mul hcut hwide)
  · rw [mul_zpow_ge_iff hexponent, ← hplaces, add_sub_cancel_left, Int.toNat_natCast] at hle
    rw [mul_le_mul_iff_of_pos_right (by positivity), Nat.cast_le]
    exact le_cutOff hle
  · -- A double with wider places is larger than any number of this size.
    have hm : hiddenBit ≤ m := hiddenBit_le h ((leastExponent_le_target _ _).trans_lt hgt)
    have hwide : 2 * 2 ^ places ≤ 2 ^ (e - exponent).toNat := by
      rw [← pow_succ']
      exact Nat.pow_le_pow_right (by norm_num) (by omega)
    have hmany := Nat.mul_le_mul hm hwide
    rw [mul_zpow_ge_iff (hexponent.trans hgt.le)] at hle
    rw [← mul_assoc] at hmany
    exact absurd (hmany.trans hle) (lt_of_target hplaces).not_ge

/-- A double that a number is not above is not below what is left of the number either. -/
theorem cutOff_le_of_canonical {m : ℕ} {e : ℤ} (h : IsCanonical m e)
    (hle : (mantissa * 2 ^ exponent : ℚ) ≤ m * 2 ^ e) :
    (cutOff mantissa places : ℚ) * 2 ^ target mantissa exponent ≤ m * 2 ^ e := by
  have hexponent : exponent ≤ target mantissa exponent := by omega
  rcases lt_trichotomy e (target mantissa exponent) with hlt | rfl | hgt
  · -- A double with narrower places is smaller than any number of this size.
    have hwide : 2 ≤ 2 ^ (target mantissa exponent - e).toNat := Nat.le_self_pow (by omega) 2
    have hmany : (hiddenBit : ℚ) * 2 ^ target mantissa exponent ≤ mantissa * 2 ^ exponent := by
      rw [mul_zpow_ge_iff hexponent, ← hplaces, add_sub_cancel_left, Int.toNat_natCast]
      exact le_of_target hpos hplaces ((leastExponent_le h).trans_lt hlt)
    have hm := (mul_zpow_ge_iff hlt.le).1 (hmany.trans hle)
    exact absurd ((Nat.mul_le_mul_left hiddenBit hwide).trans hm) (mantissa_lt h).not_ge
  · rw [mul_zpow_le_iff hexponent, ← hplaces, add_sub_cancel_left, Int.toNat_natCast] at hle
    rw [mul_le_mul_iff_of_pos_right (by positivity), Nat.cast_le]
    exact cutOff_le hle
  · have hwide : 2 ≤ 2 ^ (e - target mantissa exponent).toNat := Nat.le_self_pow (by omega) 2
    have hcut : cutOff mantissa places ≤ hiddenBit * 2 := cutOff_le (lt_of_target hplaces).le
    have hm : hiddenBit ≤ m := hiddenBit_le h ((leastExponent_le_target _ _).trans_lt hgt)
    rw [mul_zpow_le_iff hgt.le]
    exact hcut.trans (Nat.mul_le_mul hm hwide)

/-- The mantissa that is left is that of a double, or the next power of two, which is the mantissa
of a double with wider places. -/
theorem exists_roundsTo_cutOff :
    cutOff mantissa places < hiddenBit * 2 ∧
        RoundsTo (mantissa * 2 ^ exponent) (cutOff mantissa places) (target mantissa exponent) ∨
      cutOff mantissa places = hiddenBit * 2 ∧
        RoundsTo (mantissa * 2 ^ exponent) hiddenBit (target mantissa exponent + 1) := by
  have hleast := leastExponent_le_target mantissa exponent
  have hcut : cutOff mantissa places ≤ hiddenBit * 2 := cutOff_le (lt_of_target hplaces).le
  have habove {m : ℕ} {e : ℤ} (h : IsCanonical m e) := le_cutOff_of_canonical hpos hplaces h
  have hbelow {m : ℕ} {e : ℤ} (h : IsCanonical m e) := cutOff_le_of_canonical hpos hplaces h
  rcases hcut.lt_or_eq with hlt | heq
  · have hcanonical : IsCanonical (cutOff mantissa places) (target mantissa exponent) := by
      by_cases htarget : leastExponent < target mantissa exponent
      · have hfull := le_cutOff (le_of_target hpos hplaces htarget)
        exact .inr ⟨hfull, by omega, hleast⟩
      · unfold IsCanonical
        omega
    exact .inl ⟨hlt, hcanonical, habove, hbelow⟩
  · have hvalue : (hiddenBit : ℚ) * 2 ^ (target mantissa exponent + 1) =
        cutOff mantissa places * 2 ^ target mantissa exponent := by
      rw [heq, zpow_add₀ (by norm_num)]
      push_cast
      ring
    have hcanonical : IsCanonical hiddenBit (target mantissa exponent + 1) :=
      .inr ⟨le_rfl, by decide, by omega⟩
    refine .inr ⟨heq, hcanonical, fun h hle => ?_, fun h hle => ?_⟩
    · rw [hvalue]
      exact habove h hle
    · rw [hvalue]
      exact hbelow h hle

end CutOff

variable (s : UnpackedFloat.Sign)

/-- The number of a sign, a mantissa and an exponent. -/
def signed (m : ℕ) (e : ℤ) : UnpackedFloat :=
  if h : m = 0 then .zero s else .finite s m e (Nat.pos_of_ne_zero h)

/-- Shifting to the exponent of the doubles cuts off as many places as the exponents differ by. -/
theorem shiftToTargetExponent_eq (m : ℕ) (e : ℤ) (accuracy : Accuracy) :
    shiftToTargetExponent .binary64 m e accuracy =
      (ExtendedMantissa.ofMantissaAndAccuracy m accuracy >>> (target m e - e).toNat,
        e + (target m e - e).toNat) :=
  rfl

/-- A mantissa of at most fifty-three bits needs no shift. -/
theorem shiftToTargetExponent_of_lt {m : ℕ} {e : ℤ} (hm : m < hiddenBit * 2)
    (he : leastExponent ≤ e) :
    shiftToTargetExponent .binary64 m e .exact = (⟨m, false, false⟩, e) := by
  have hlog : m.log2 ≤ 52 := by
    by_cases hzero : m = 0
    · simp [hzero]
    · exact Nat.lt_succ_iff.1 ((Nat.log2_lt hzero).2 hm)
  have hplaces : (target m e - e).toNat = 0 := by
    rw [target_eq]
    omega
  rw [shiftToTargetExponent_eq, hplaces, Nat.cast_zero, add_zero]
  rfl

/-- A mantissa that was rounded up to fifty-four bits is shifted by one place. -/
theorem shiftToTargetExponent_of_eq {e : ℤ} (he : leastExponent ≤ e) :
    shiftToTargetExponent .binary64 (hiddenBit * 2) e .exact =
      (⟨hiddenBit, false, false⟩, e + 1) := by
  have hlog : (hiddenBit * 2).log2 = 53 := by decide
  have hplaces : (target (hiddenBit * 2) e - e).toNat = 1 := by
    rw [target_eq, hlog]
    omega
  rw [shiftToTargetExponent_eq, hplaces]
  rfl

/-- Rounding to wider places gives what the number rounds to. -/
theorem exists_roundWithAccuracy {mantissa : ℕ} {exponent : ℤ} (hpos : 0 < mantissa)
    (hexponent : exponent ≤ target mantissa exponent) :
    ∃ m e, RoundsTo (mantissa * 2 ^ exponent) m e ∧
      roundWithAccuracy .binary64 s mantissa exponent .exact = signed s m e := by
  have hplaces : exponent + ((target mantissa exponent - exponent).toNat : ℕ) =
      target mantissa exponent := by
    omega
  have hleast := leastExponent_le_target mantissa exponent
  have hround : roundWithAccuracy .binary64 s mantissa exponent .exact =
      signed s
        (shiftToTargetExponent .binary64
          (cutOff mantissa (target mantissa exponent - exponent).toNat)
          (target mantissa exponent) .exact).1.mantissa
        (shiftToTargetExponent .binary64
          (cutOff mantissa (target mantissa exponent - exponent).toNat)
          (target mantissa exponent) .exact).2 := by
    rw [roundWithAccuracy, shiftToTargetExponent_eq mantissa, hplaces]
    rfl
  rw [hround]
  rcases exists_roundsTo_cutOff hpos hplaces with ⟨hlt, hrounds⟩ | ⟨heq, hrounds⟩
  · rw [shiftToTargetExponent_of_lt hlt hleast]
    exact ⟨_, _, hrounds, rfl⟩
  · rw [heq, shiftToTargetExponent_of_eq hleast]
    exact ⟨_, _, hrounds, rfl⟩

/-- Rounding to whatever places gives what the number rounds to. -/
theorem exists_round {mantissa : ℕ} (hpos : 0 < mantissa) (exponent : ℤ) :
    ∃ m e, RoundsTo (mantissa * 2 ^ exponent) m e ∧
      UnpackedFloat.round .binary64 s mantissa exponent = signed s m e := by
  let k := (exponent - target mantissa exponent).toNat
  have hpos' : 0 < mantissa <<< k := by
    rw [Nat.shiftLeft_eq]
    positivity
  have hlog : (mantissa <<< k).log2 = mantissa.log2 + k := by
    rw [Nat.log2_eq_iff hpos'.ne', Nat.shiftLeft_eq]
    have hlow := Nat.log2_self_le hpos.ne'
    have hhigh := Nat.lt_log2_self (n := mantissa)
    constructor
    · rw [pow_add]
      exact Nat.mul_le_mul_right _ hlow
    · rw [Nat.add_right_comm, pow_add]
      exact Nat.mul_lt_mul_of_pos_right hhigh (by positivity)
  have htarget : target (mantissa <<< k) (exponent - k) = target mantissa exponent := by
    rw [target_eq, target_eq, hlog]
    push_cast
    omega
  have hvalue : ((mantissa <<< k : ℕ) : ℚ) * 2 ^ (exponent - k) = mantissa * 2 ^ exponent := by
    rw [mul_zpow_eq mantissa (x := exponent - k) (by omega), Nat.shiftLeft_eq]
    congr 4
    omega
  have hexponent : exponent - k ≤ target (mantissa <<< k) (exponent - k) := by
    rw [htarget]
    omega
  obtain ⟨m, e, hrounds, hround⟩ := exists_roundWithAccuracy s hpos' hexponent
  rw [hvalue] at hrounds
  exact ⟨m, e, hrounds, hround⟩

/-! ## Doubles as they are stored -/

/-- The exponent of the largest double. -/
def greatestExponent : ℤ := 971

/-- The sign bit is read back as it was stored. -/
theorem unpackSign_packComponents (e : BitVec 11) (m : BitVec 52) :
    unpackSign (packComponents .binary64 s e m) = s.toBitVec := by
  ext i hi
  simp only [unpackSign, packComponents]
  grind

/-- A sign is read back from its bit. -/
theorem ofBitVec_toBitVec : UnpackedFloat.Sign.ofBitVec s.toBitVec = s := by
  cases s <;> rfl

/-- A number with a positive mantissa is finite. -/
theorem signed_of_pos {m : ℕ} {e : ℤ} (hm : 0 < m) :
    signed s m e = .finite s m e hm :=
  dif_neg hm.ne'

/-- A number with some exponent bits not set is finite. If none of them is set, it has the least
exponent and no hidden bit. -/
theorem unpack_packComponents {e : BitVec 11} (hones : e ≠ -1#11) (m : BitVec 52) :
    UnpackedFloat.unpack .binary64 (packComponents .binary64 s e m) =
      if e = 0#11 then signed s m.toNat leastExponent
      else signed s (hiddenBit + m.toNat) (e.toNat - 1075) := by
  have hhidden : (1#1 ++ m).toNat = hiddenBit + m.toNat := toNat_leadingBit_append m
  simp only [UnpackedFloat.unpack, UnpackedFloat.unpackExponent_packComponents,
    UnpackedFloat.unpackMantissa_packComponents, unpackSign_packComponents, ofBitVec_toBitVec,
    if_neg hones]
  split
  · rename_i hzero
    subst hzero
    by_cases hm : m = 0#52
    · subst hm
      rfl
    · rw [dif_neg hm, signed_of_pos]
      rfl
  · rw [signed_of_pos]
    simp only [hhidden]
    rfl

/-- A sign, a mantissa and an exponent can be read off the number they make. -/
theorem eq_of_signed_eq {s s' : UnpackedFloat.Sign} {m m' : ℕ} {e e' : ℤ} {hm : 0 < m}
    (h : signed s' m' e' = .finite s m e hm) : m' = m ∧ e' = e := by
  unfold signed at h
  split at h
  · cases h
  · cases h
    exact ⟨rfl, rfl⟩

/-- A finite number that was taken apart is a double. -/
theorem canonical_of_unpack {x : Float.Model} {s : UnpackedFloat.Sign} {m : ℕ} {e : ℤ}
    {hm : 0 < m} (h : x.unpack = .finite s m e hm) : IsCanonical m e ∧ e ≤ greatestExponent := by
  have hbit : hiddenBit = 2 ^ 52 := rfl
  rw [Float.Model.unpack] at h
  generalize x.toBits.toBitVec = b at h
  have hfraction := (@unpackMantissa .binary64 b).isLt
  have hexponent := (@unpackExponent .binary64 b).isLt
  by_cases hones : @unpackExponent .binary64 b = -1#11
  · rw [UnpackedFloat.unpack, if_pos hones] at h
    split at h <;> cases h
  · have hne : (@unpackExponent .binary64 b).toNat ≠ 2047 :=
      fun hall => hones (BitVec.eq_of_toNat_eq hall)
    rw [← packComponents_unpacked b, unpack_packComponents _ hones] at h
    unfold IsCanonical leastExponent greatestExponent
    split at h
    · obtain ⟨rfl, rfl⟩ := eq_of_signed_eq h
      exact ⟨.inl ⟨hfraction, rfl⟩, by decide⟩
    · rename_i hzero
      have hpos : (@unpackExponent .binary64 b).toNat ≠ 0 :=
        fun hnone => hzero (BitVec.eq_of_toNat_eq hnone)
      obtain ⟨rfl, rfl⟩ := eq_of_signed_eq h
      simp only at hfraction hexponent
      refine ⟨.inr ⟨?_, ?_, ?_⟩, ?_⟩ <;> omega

/-- A double with fifty-three bits in its mantissa is stored as it is. -/
theorem unpack_pack_normal {m : ℕ} {e : ℤ} (hm : 0 < m) (hhidden : hiddenBit ≤ m)
    (hlarge : m < hiddenBit * 2) (hleast : leastExponent ≤ e) (hgreatest : e ≤ greatestExponent) :
    UnpackedFloat.unpack .binary64 (UnpackedFloat.pack .binary64 (.finite s m e hm)) =
      .finite s m e hm := by
  have hbit : hiddenBit = 2 ^ 52 := rfl
  unfold leastExponent at hleast
  unfold greatestExponent at hgreatest
  obtain ⟨b, hb⟩ : ∃ b : BitVec 52, hiddenBit + b.toNat = m := by
    refine ⟨.ofNatLT (m - hiddenBit) (by omega), ?_⟩
    rw [BitVec.toNat_ofNatLT]
    omega
  obtain ⟨k, hk⟩ : ∃ k : BitVec 11, (k.toNat : ℤ) - 1075 = e := by
    refine ⟨.ofNatLT (e + 1075).toNat (by omega), ?_⟩
    rw [BitVec.toNat_ofNatLT]
    omega
  have hones : k ≠ -1#11 := by
    rintro rfl
    have hall : ((-1#11).toNat : ℤ) - 1075 = 972 := rfl
    omega
  have hzero : k ≠ 0#11 := by
    rintro rfl
    have hnone : ((0#11).toNat : ℤ) - 1075 = -1075 := rfl
    omega
  have hmantissa : (1#1 ++ b).toNat = m := (toNat_leadingBit_append b).trans hb
  subst hmantissa hk
  rw [pack_normal s k b hones hm, unpack_packComponents s hones b, if_neg hzero,
    ← signed_of_pos s hm, toNat_leadingBit_append]
  rfl

/-- A double that is too large is stored as infinity. -/
theorem unpack_pack_large {m : ℕ} {e : ℤ} (hm : 0 < m) (hlarge : greatestExponent < e) :
    UnpackedFloat.unpack .binary64 (UnpackedFloat.pack .binary64 (.finite s m e hm)) =
      .infinity s := by
  have hexponent : 2 ^ Format.binary64.exponentBits ≤ (e + Format.binary64.exponentBias +
      Format.binary64.mantissaBitsWithoutImplicit).toNat + 1 := by
    show 2 ^ 11 ≤ (e + (1023 : ℕ) + (52 : ℕ)).toNat + 1
    unfold greatestExponent at hlarge
    omega
  simp only [UnpackedFloat.pack, if_pos hexponent]
  cases s <;> rfl

/-- A double is stored as it is, unless it is too large. -/
theorem unpack_pack_signed {m : ℕ} {e : ℤ} (h : IsCanonical m e) :
    (Float.Model.pack (signed s m e)).unpack =
      if e ≤ greatestExponent then signed s m e else .infinity s := by
  have hpack (u : UnpackedFloat) : (Float.Model.pack u).unpack =
      UnpackedFloat.unpack .binary64 (UnpackedFloat.pack .binary64 u) := rfl
  rcases Nat.eq_zero_or_pos m with rfl | hm
  · have hleast : e = leastExponent := by
      have hbit : hiddenBit = 2 ^ 52 := rfl
      unfold IsCanonical at h
      omega
    subst hleast
    cases s <;> rfl
  rw [signed_of_pos s hm, hpack]
  split
  · rename_i hgreatest
    rcases h with ⟨hsmall, rfl⟩ | ⟨hhidden, hlarge, hleast⟩
    · obtain ⟨b, rfl⟩ : ∃ b : BitVec 52, b.toNat = m := ⟨.ofNatLT m hsmall, rfl⟩
      rw [leastExponent, pack_subnormal s b hm, unpack_packComponents s (by decide) b, if_pos rfl,
        signed_of_pos s hm]
      rfl
    · exact unpack_pack_normal s hm hhidden (by omega) hleast hgreatest
  · rename_i hgreatest
    exact unpack_pack_large s hm (not_le.1 hgreatest)

end Watershed.Rounding
