import Mathlib
import Watershed.Decimal.Reading
import Watershed.Proofs.Decimal.Neighbourhoods

/-!
# Numerals

However a decimal is laid out, it is written as a `Numeral`: digits, perhaps a point with more
digits behind it, perhaps a power of ten. A numeral reads as one decimal only, and the numeral of a
decimal reads as a decimal of the same value. Since a double can be told from the value of its
shortest decimal, it can be told from its text (`text_injective`), whatever the style.
-/

set_option autoImplicit false

namespace Watershed.Decimal

/-! ## Digits -/

/-- Every whole number has at least one digit. -/
theorem digits_ne_nil (n : ℕ) : digits n ≠ [] :=
  Nat.toDigits_ne_nil

/-- The digits of a whole number are digits. -/
theorem isDigit_of_mem_digits {n : ℕ} {c : Char} (h : c ∈ digits n) : c.isDigit = true :=
  Nat.isDigit_of_mem_toDigits (by norm_num) (by norm_num) h

/-- Zeros are digits. -/
theorem isDigit_of_mem_zeros {count : ℕ} {c : Char} (h : c ∈ zeros count) : c.isDigit = true := by
  rw [List.eq_of_mem_replicate h]
  rfl

/-- The digits of a whole number read back as this number. -/
theorem ofDigits_digits (n : ℕ) : ofDigits (digits n) = n :=
  Nat.ofDigitChars_ten_toDigits

/-- Zeros behind some digits multiply the number by a power of ten. -/
theorem ofDigits_append_zeros (ds : List Char) (count : ℕ) :
    ofDigits (ds ++ zeros count) = ofDigits ds * 10 ^ count := by
  have hzeros : Nat.ofDigitChars 10 (zeros count) (ofDigits ds) = 10 ^ count * ofDigits ds :=
    Nat.ofDigitChars_replicate_zero
  show Nat.ofDigitChars 10 (ds ++ zeros count) 0 = _
  rw [Nat.ofDigitChars_append, mul_comm]
  exact hzeros

/-- Zeros in front of some digits leave the number as it is. -/
theorem ofDigits_zeros_append (count : ℕ) (ds : List Char) :
    ofDigits (zeros count ++ ds) = ofDigits ds := by
  have hzeros : Nat.ofDigitChars 10 (zeros count) 0 = 10 ^ count * 0 :=
    Nat.ofDigitChars_replicate_zero
  show Nat.ofDigitChars 10 (zeros count ++ ds) 0 = _
  rw [Nat.ofDigitChars_append, hzeros]
  rfl

/-- A whole number is read back from its digits. -/
theorem readWhole?_digits (n : ℕ) : readWhole? (digits n) = some n := by
  have hall : (digits n).all Char.isDigit = true :=
    List.all_eq_true.2 fun c => isDigit_of_mem_digits
  simp [readWhole?, hall, digits_ne_nil, ofDigits_digits]

/-- Digits have no sign in front. -/
theorem splitSign_digits (n : ℕ) : splitSign (digits n) = (false, digits n) := by
  cases hdigits : digits n with
  | nil => exact absurd hdigits (digits_ne_nil n)
  | cons c cs =>
    have hdigit : c.isDigit = true := isDigit_of_mem_digits (n := n) (by simp [hdigits])
    unfold splitSign
    split
    · rename_i heq
      cases heq
      cases hdigit
    · rename_i heq
      cases heq
      cases hdigit
    · rfl

/-! ## Numerals and what they read as -/

/-- An unsigned number as it is written. The point is left out if no digit follows it, and the power
of ten may be left out as well. -/
structure Numeral where
  whole : List Char
  fraction : List Char
  power : Option ℤ
  nonempty : whole ≠ []
  isDigit : ∀ c ∈ whole ++ fraction, c.isDigit = true

namespace Numeral

/-- The characters of a power of ten. -/
def powerChars (power : ℤ) : List Char :=
  'e' :: (if power < 0 then '-' :: digits power.natAbs else digits power.natAbs)

/-- The characters of a numeral. -/
def chars (n : Numeral) : List Char :=
  n.whole ++ (if n.fraction.isEmpty then [] else '.' :: n.fraction) ++ n.power.elim [] powerChars

/-- The decimal that a numeral stands for. -/
def decimal (n : Numeral) : Decimal :=
  ⟨ofDigits (n.whole ++ n.fraction), n.power.getD 0 - n.fraction.length⟩

/-- A power of ten is read back from its characters, and as zero if it is left out. -/
theorem readPower?_powerChars (power : Option ℤ) :
    readPower? (power.elim [] powerChars) = some (power.getD 0) := by
  cases power with
  | none => rfl
  | some p =>
    show readPower? (powerChars p) = some p
    unfold powerChars
    split
    · rename_i hneg
      simp [readPower?, splitSign, readWhole?_digits, abs_of_neg hneg]
    · rename_i hneg
      simp [readPower?, splitSign_digits, readWhole?_digits, abs_of_nonneg (not_lt.1 hneg)]

/-- The characters of a power of ten begin with an `e`. -/
theorem head_powerChars (power : Option ℤ) : ∀ c ∈ (power.elim [] powerChars).head?, c = 'e' := by
  cases power with
  | none => simp
  | some p => simp [powerChars]

/-- Digits on both sides of a point are read as one number, with a power of ten that makes up for
the point. -/
theorem readDecimal?_of_point {cs whole more fraction rest : List Char}
    (hwhole : spanDigits cs = (whole, '.' :: more)) (hfraction : spanDigits more = (fraction, rest))
    (hne : whole ≠ []) :
    readDecimal? cs = (readPower? rest).map fun power =>
      ⟨ofDigits (whole ++ fraction), power - fraction.length⟩ := by
  simp [readDecimal?, hwhole, hfraction, hne]

/-- Digits without a point are read as a whole number, with the power of ten behind them. -/
theorem readDecimal?_of_no_point {cs whole rest : List Char}
    (hwhole : spanDigits cs = (whole, rest)) (hrest : '.' ∉ rest.head?) (hne : whole ≠ []) :
    readDecimal? cs = (readPower? rest).map fun power => ⟨ofDigits whole, power⟩ := by
  simp only [readDecimal?, hwhole]
  split
  · simp at hrest
  · simp [hne]

/-- Reading a numeral gives the decimal it stands for. -/
theorem readDecimal?_chars (n : Numeral) : readDecimal? n.chars = some n.decimal := by
  obtain ⟨whole, fraction, power, nonempty, isDigit⟩ := n
  have hwhole : ∀ c ∈ whole, c.isDigit = true := fun c hc => isDigit c (by simp [hc])
  have hfraction : ∀ c ∈ fraction, c.isDigit = true := fun c hc => isDigit c (by simp [hc])
  have hpower : ∀ c ∈ (power.elim [] powerChars).head?, c.isDigit = false := by
    intro c hc
    rw [head_powerChars power c hc]
    rfl
  cases fraction with
  | nil =>
    have hpoint : '.' ∉ (power.elim [] powerChars).head? :=
      fun hc => absurd (head_powerChars power _ hc) (by decide)
    have hspan := spanDigits_append hwhole hpower
    simp [chars, decimal, readDecimal?_of_no_point hspan hpoint nonempty, readPower?_powerChars]
  | cons d ds =>
    have hpoint : ∀ c ∈ ('.' :: (d :: ds ++ power.elim [] powerChars)).head?,
        c.isDigit = false := by
      simp
    have hspan := spanDigits_append hwhole hpoint
    have hspan' := spanDigits_append hfraction hpower
    have hread := readDecimal?_of_point hspan hspan' nonempty
    simpa [chars, decimal, readPower?_powerChars] using hread

/-! ## Characters of numerals -/

/-- A numeral begins with a digit. -/
theorem exists_head (n : Numeral) : ∃ c ∈ n.chars.head?, c.isDigit = true := by
  obtain ⟨whole, fraction, power, nonempty, isDigit⟩ := n
  cases whole with
  | nil => exact absurd rfl nonempty
  | cons d ds => exact ⟨d, rfl, isDigit d (by simp)⟩

/-- Whether a character may stand in a numeral. -/
def uses (c : Char) : Bool :=
  c.isDigit || c = '.' || c = 'e' || c = '-'

/-- Digits may stand in a numeral. -/
theorem uses_of_isDigit {c : Char} (h : c.isDigit = true) : uses c = true := by
  simp [uses, h]

/-- The characters of a power of ten may stand in a numeral. -/
theorem uses_of_mem_powerChars {power : ℤ} {c : Char} (h : c ∈ powerChars power) :
    uses c = true := by
  rw [powerChars, List.mem_cons] at h
  rcases h with rfl | h
  · rfl
  · split at h
    · rcases List.mem_cons.1 h with rfl | h
      · rfl
      · exact uses_of_isDigit (isDigit_of_mem_digits h)
    · exact uses_of_isDigit (isDigit_of_mem_digits h)

/-- A numeral is made of characters that may stand in numerals. -/
theorem uses_of_mem_chars {n : Numeral} {c : Char} (h : c ∈ n.chars) : uses c = true := by
  obtain ⟨whole, fraction, power, nonempty, isDigit⟩ := n
  simp only [chars, List.mem_append] at h isDigit
  rcases h with (h | h) | h
  · exact uses_of_isDigit (isDigit c (.inl h))
  · split at h
    · cases h
    · rcases List.mem_cons.1 h with rfl | h
      · rfl
      · exact uses_of_isDigit (isDigit c (.inr h))
  · cases power with
    | none => cases h
    | some p => exact uses_of_mem_powerChars h

/-! ## Layouts -/

/-- Whether a numeral of the same value as a decimal is written with some characters. -/
def Writes (d : Decimal) (cs : List Char) : Prop :=
  ∃ n : Numeral, n.chars = cs ∧ n.decimal.value = d.value

/-- Digits that are cut in two by the point, with a power of ten that makes up for it. -/
theorem writes_of_cut (d : Decimal) (point : ℕ) (power : Option ℤ) (hpoint : 0 < point)
    (hpower : power.getD 0 - ((digits d.coefficient).length - point : ℕ) = d.exponent) :
    Writes d ((digits d.coefficient).take point ++
      (if ((digits d.coefficient).drop point).isEmpty then []
        else '.' :: (digits d.coefficient).drop point) ++ power.elim [] powerChars) := by
  have hne := digits_ne_nil d.coefficient
  refine ⟨⟨(digits d.coefficient).take point, (digits d.coefficient).drop point, power, ?_, ?_⟩,
    rfl, ?_⟩
  · simp [hne, hpoint.ne']
  · rw [List.take_append_drop]
    exact fun c => isDigit_of_mem_digits
  · simp only [decimal, List.take_append_drop, ofDigits_digits, List.length_drop, hpower]

/-- The layout with a power of ten writes a numeral of the same value. -/
theorem writes_exponentText (d : Decimal) : Writes d (exponentText d) := by
  have hlength := List.length_pos_iff.2 (digits_ne_nil d.coefficient)
  apply writes_of_cut d 1 (some (d.pointPosition - 1)) one_pos
  rw [Option.getD_some, pointPosition]
  omega

end Numeral

/-- Zeros behind a coefficient are made up for by a smaller power of ten. -/
theorem value_shift (coefficient count : ℕ) (exponent : ℤ) :
    value ⟨coefficient * 10 ^ count, exponent - count⟩ = value ⟨coefficient, exponent⟩ := by
  simp only [value, Nat.cast_mul, Nat.cast_pow, Nat.cast_ofNat]
  rw [mul_assoc, ← zpow_natCast, ← zpow_add₀ (by norm_num)]
  congr 2
  omega

namespace Numeral

/-- Zeros behind the digits shift the coefficient, before the point and behind it. -/
theorem writes_of_zeros_behind {d : Decimal} (hexponent : 0 ≤ d.exponent) (count : ℕ) :
    Writes d (digits d.coefficient ++ zeros d.exponent.toNat ++
      if (zeros count).isEmpty then [] else '.' :: zeros count) := by
  refine ⟨⟨digits d.coefficient ++ zeros d.exponent.toNat, zeros count, none, ?_, ?_⟩, ?_, ?_⟩
  · simp [digits_ne_nil]
  · simp only [List.mem_append]
    rintro c ((hc | hc) | hc)
    · exact isDigit_of_mem_digits hc
    · exact isDigit_of_mem_zeros hc
    · exact isDigit_of_mem_zeros hc
  · simp [chars]
  · have hcoefficient : ofDigits (digits d.coefficient ++ zeros d.exponent.toNat ++ zeros count) =
        d.coefficient * 10 ^ (d.exponent.toNat + count) := by
      rw [ofDigits_append_zeros, ofDigits_append_zeros, ofDigits_digits, mul_assoc, ← pow_add]
    have hpower : 0 - ((zeros count).length : ℤ) =
        d.exponent - (d.exponent.toNat + count : ℕ) := by
      rw [zeros, List.length_replicate]
      omega
    exact (congrArg value (congrArg₂ Decimal.mk hcoefficient hpower)).trans (value_shift _ _ _)

/-- Zeros before the digits count as nothing, but move the point. -/
theorem writes_of_zeros_before {d : Decimal} (hposition : d.pointPosition ≤ 0) :
    Writes d (['0', '.'] ++ zeros (-d.pointPosition).toNat ++ digits d.coefficient) := by
  refine ⟨⟨['0'], zeros (-d.pointPosition).toNat ++ digits d.coefficient, none, ?_, ?_⟩, ?_, ?_⟩
  · simp
  · simp only [List.mem_append]
    rintro c (hc | hc | hc)
    · rw [List.mem_singleton.1 hc]
      rfl
    · exact isDigit_of_mem_zeros hc
    · exact isDigit_of_mem_digits hc
  · simp [chars, digits_ne_nil]
  · have hcoefficient : ofDigits (zeros 1 ++ (zeros (-d.pointPosition).toNat ++
        digits d.coefficient)) = d.coefficient := by
      rw [ofDigits_zeros_append, ofDigits_zeros_append, ofDigits_digits]
    have hexponent : 0 - ((zeros (-d.pointPosition).toNat ++ digits d.coefficient).length : ℤ) =
        d.exponent := by
      rw [List.length_append, zeros, List.length_replicate]
      unfold pointPosition at *
      omega
    exact congrArg value (congrArg₂ Decimal.mk hcoefficient hexponent)

/-- The layout with all places writes a numeral of the same value. -/
theorem writes_positionalText (keepsPoint : Bool) (d : Decimal) :
    Writes d (positionalText keepsPoint d) := by
  have hposition : d.pointPosition = (digits d.coefficient).length + d.exponent := rfl
  unfold positionalText
  simp only
  split
  · rename_i hexponent
    cases keepsPoint with
    | false => exact writes_of_zeros_behind hexponent 0
    | true => exact writes_of_zeros_behind hexponent 1
  · split
    · have hwrites := writes_of_cut d d.pointPosition.toNat none (by omega)
        (by rw [Option.getD_none]; omega)
      have hfraction : ¬(digits d.coefficient).length ≤ d.pointPosition.toNat := by omega
      simpa [hfraction] using hwrites
    · exact writes_of_zeros_before (by omega)

/-- Whatever the style, a decimal is laid out as a numeral of the same value. -/
theorem exists_layout (style : Style) (d : Decimal) :
    ∃ n : Numeral, layout style d = String.ofList n.chars ∧ n.decimal.value = d.value := by
  have hwrites : Writes d (layout style d).toList := by
    rw [layout, String.toList_ofList]
    split
    · exact writes_positionalText style.keepsPoint d
    · exact writes_exponentText d
  obtain ⟨n, hchars, hvalue⟩ := hwrites
  exact ⟨n, by rw [hchars, String.ofList_toList], hvalue⟩

end Numeral

/-! ## Doubles and their bits -/

namespace Double

open Float.Model (Format UnpackedFloat)

/-- The exponent bits of a double are the eleven bits above its fraction. -/
theorem toNat_unpackExponent (b : BitVec Format.binary64.numBits) :
    (UnpackedFloat.unpackExponent b).toNat = b.toNat / hiddenBit % 2048 := by
  have hshift : (UnpackedFloat.unpackExponent b).toNat = b.toNat >>> 52 % 2048 := rfl
  rw [hshift, Nat.shiftRight_eq_div_pow]
  rfl

/-- The exponent bits of a finite double are not all set. -/
theorem exponent_ne_of_isFinite {x : Float} (h : x.isFinite = true) :
    x.toBits.toNat / hiddenBit % 2048 ≠ 2047 := by
  intro hones
  have hset : @UnpackedFloat.unpackExponent .binary64 x.toBits.toBitVec = -1#11 := by
    apply BitVec.eq_of_toNat_eq
    rw [toNat_unpackExponent]
    exact hones
  have hunpack : (UnpackedFloat.unpack .binary64 x.toBits.toBitVec).isFinite = false := by
    rw [UnpackedFloat.unpack, if_pos hset]
    split <;> rfl
  exact Bool.false_ne_true (hunpack.symm.trans h)

/-- A finite double is a canonical mantissa and exponent with a sign. -/
theorem ofFloat_of_isFinite {x : Float} (h : x.isFinite = true) :
    ∃ negative mantissa exponent, ofFloat x = .finite negative mantissa exponent ∧
      IsCanonical mantissa exponent := by
  have hfraction : x.toBits.toNat % hiddenBit < hiddenBit := Nat.mod_lt _ (Nat.two_pow_pos 52)
  unfold ofFloat IsCanonical leastExponent
  simp only [if_neg (exponent_ne_of_isFinite h)]
  split
  · exact ⟨_, _, _, rfl, .inl ⟨hfraction, rfl⟩⟩
  · refine ⟨_, _, _, rfl, .inr ?_⟩
    omega

/-- The bits of a double from its sign, its mantissa and its exponent. -/
theorem toBits_of_ofFloat {x : Float} {negative : Bool} {mantissa : ℕ} {exponent : ℤ}
    (h : ofFloat x = .finite negative mantissa exponent) :
    x.toBits.toNat = (if negative then 2 ^ 63 else 0) +
      ((exponent - leastExponent).toNat * hiddenBit + mantissa) := by
  have hbound := x.toBits.toNat_lt
  have hbit : hiddenBit = 4503599627370496 := rfl
  have hhalf : Nat.pow 2 63 = 9223372036854775808 := rfl
  simp only [ofFloat, hbit, hhalf] at h
  rw [hbit]
  split at h
  · split at h <;> cases h
  · split at h
    all_goals
      obtain ⟨rfl, rfl, rfl⟩ := Double.finite.inj h
      simp only [decide_eq_true_eq, leastExponent]
      split <;> omega

/-- A double is determined by its sign, its mantissa and its exponent. -/
theorem ofFloat_finite_injective {x y : Float} {negative : Bool} {mantissa : ℕ} {exponent : ℤ}
    (hx : ofFloat x = .finite negative mantissa exponent)
    (hy : ofFloat y = .finite negative mantissa exponent) : x = y := by
  have hbits : x.toBits = y.toBits := by
    apply UInt64.toNat_inj.1
    rw [toBits_of_ofFloat hx, toBits_of_ofFloat hy]
  obtain ⟨⟨bits, _⟩⟩ := x
  obtain ⟨⟨bits', _⟩⟩ := y
  obtain rfl : bits = bits' := hbits
  rfl

end Double

/-! ## Texts of doubles -/

/-- A finite double is written as a numeral of its shortest decimal, with a minus sign in front if
it is negative. -/
theorem text_of_isFinite (style : Style) {x : Float} (h : x.isFinite = true) :
    ∃ (negative : Bool) (m : ℕ) (e : ℤ) (n : Numeral),
      Double.ofFloat x = .finite negative m e ∧ Double.IsCanonical m e ∧
        n.decimal.value = (shortest m e).value ∧
        (text style x).toList = (if negative then '-' :: n.chars else n.chars) := by
  obtain ⟨negative, m, e, hfinite, hcanonical⟩ := Double.ofFloat_of_isFinite h
  obtain ⟨n, hlayout, hvalue⟩ := Numeral.exists_layout style (shortest m e)
  refine ⟨negative, m, e, n, hfinite, hcanonical, hvalue, ?_⟩
  simp only [text, hfinite, hlayout, String.toList_append, String.toList_ofList]
  cases negative <;> rfl

/-- No two finite doubles have the same text in a style. -/
theorem text_injective {style : Style} {x y : Float} (hx : x.isFinite = true)
    (hy : y.isFinite = true) (h : text style x = text style y) : x = y := by
  obtain ⟨negative, m, e, n, hfinite, hcanonical, hvalue, hchars⟩ := text_of_isFinite style hx
  obtain ⟨negative', m', e', n', hfinite', hcanonical', hvalue', hchars'⟩ :=
    text_of_isFinite style hy
  rw [h, hchars'] at hchars
  -- A numeral does not begin with a sign, so the signs agree and with them the numerals.
  have hunsigned : ∀ (k : Numeral) (cs : List Char), '-' :: cs ≠ k.chars := by
    intro k cs hk
    obtain ⟨c, hhead, hdigit⟩ := k.exists_head
    rw [← hk] at hhead
    cases hhead
    cases hdigit
  have hsame : negative = negative' ∧ n.chars = n'.chars := by
    cases negative <;> cases negative'
    · exact ⟨rfl, hchars.symm⟩
    · exact absurd hchars (hunsigned n _)
    · exact absurd hchars.symm (hunsigned n' _)
    · exact ⟨rfl, (List.cons.inj hchars).2.symm⟩
  obtain ⟨rfl, hnumerals⟩ := hsame
  have hdecimal : n.decimal = n'.decimal := by
    apply Option.some.inj
    rw [← n.readDecimal?_chars, hnumerals, n'.readDecimal?_chars]
  obtain ⟨rfl, rfl⟩ := eq_of_value_shortest_eq hcanonical hcanonical'
    (by rw [← hvalue, hdecimal, hvalue'])
  exact Double.ofFloat_finite_injective hfinite hfinite'

/-- A finite double is written with characters that may stand in numerals. -/
theorem uses_of_mem_text {style : Style} {x : Float} (hx : x.isFinite = true) {c : Char}
    (h : c ∈ (text style x).toList) : Numeral.uses c = true := by
  obtain ⟨negative, m, e, n, -, -, -, hchars⟩ := text_of_isFinite style hx
  rw [hchars] at h
  cases negative with
  | false => exact Numeral.uses_of_mem_chars h
  | true =>
    rcases List.mem_cons.1 h with rfl | h
    · rfl
    · exact Numeral.uses_of_mem_chars h

/-- The text of a finite double begins with a digit or a minus sign, so it is no word. -/
theorem exists_head_text {style : Style} {x : Float} (hx : x.isFinite = true) :
    ∃ c ∈ (text style x).toList.head?, c.isDigit = true ∨ c = '-' := by
  obtain ⟨negative, m, e, n, -, -, -, hchars⟩ := text_of_isFinite style hx
  rw [hchars]
  cases negative with
  | false =>
    obtain ⟨c, hhead, hdigit⟩ := n.exists_head
    exact ⟨c, hhead, .inl hdigit⟩
  | true => exact ⟨'-', rfl, .inr rfl⟩

end Watershed.Decimal
