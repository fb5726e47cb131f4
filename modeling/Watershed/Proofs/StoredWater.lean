import Watershed.Proofs.Doubles.Magnitudes
import Watershed.Proofs.Framing

/-!
# The water that dams store

A dam that lets no more pass than reaches it takes no water from its reservoir, provided that what
reaches it is finite: the change of the level is rounded at each of its operations, but never past
zero, and the new level is rounded, but never past the old one. Of an infinite inflow the part that
does not pass is a NaN, whatever the factor, and the reservoir is empty afterwards.
-/

set_option autoImplicit false

namespace Watershed

open Float.Model (UnpackedFloat)

/-! ## The change of a level -/

namespace Day

variable {rainfall factor : Float} {r : River} (hrainfall : NonNegative rainfall)
  (hinflow : NonNegative r.inflow) (hfactor : NonNegative factor)

include hrainfall hinflow hfactor

/-- A finite inflow of which no more than all passes does not drain a reservoir. -/
theorem nonNegative_levelChange (hfinite : magnitude r.inflow ≠ ⊤) (hone : factor ≤ 1.0) :
    NonNegative (levelChange rainfall r factor) := by
  have hsum := isRounded_add hrainfall hinflow
  obtain ⟨hpassing, hle⟩ := mul_le_of_le_one hinflow hfactor hfinite hone
  rw [le_iff_magnitude_le hpassing hinflow] at hle
  have hpasses : r.inflow * factor ≤ rainfall + r.inflow :=
    hsum.above hpassing (hle.trans (le_add_of_nonneg_left (magnitude_nonneg rainfall)))
  exact nonNegative_sub hsum.nonNegative hpassing (ne_top_of_le_ne_top hfinite hle) hpasses

/-- Infinity less infinity, or less the product of infinity and zero, is a NaN. -/
theorem isNaN_levelChange (hinfinite : magnitude r.inflow = ⊤) :
    (levelChange rainfall r factor).isNaN = true := by
  have hunpack := unpack_of_magnitude_eq_top hinflow hinfinite
  have hsum : (rainfall + r.inflow).toModel.unpack = .infinity .positive := by
    have hrounded := isRounded_add hrainfall hinflow
    have hle := hrounded.above hinflow (le_add_of_nonneg_left (magnitude_nonneg rainfall))
    rw [le_iff_magnitude_le hinflow hrounded.nonNegative, hinfinite, top_le_iff] at hle
    exact unpack_of_magnitude_eq_top hrounded.nonNegative hle
  have hproduct : UnpackedFloat.mul .binary64 (.infinity .positive) factor.toModel.unpack =
        .notANumber ∨
      UnpackedFloat.mul .binary64 (.infinity .positive) factor.toModel.unpack =
        .infinity .positive := by
    rcases nonNegative_iff.1 hfactor with ⟨s, h⟩ | ⟨m, e, hm, h⟩ | h
    · rw [h]
      exact .inl rfl
    · rw [h]
      exact .inr rfl
    · rw [h]
      exact .inr rfl
  rw [levelChange, sub_eq_packed, hsum, mul_eq_packed, hunpack]
  rcases hproduct with h | h
  · rw [h]
    rfl
  · rw [h]
    rfl

end Day

/-! ## The level after a change -/

namespace River

/-- The larger of zero and a number that is not negative has the size of the number. -/
theorem magnitude_aboveZero {x : Float} (hx : NonNegative x) :
    magnitude (aboveZero x) = magnitude x := by
  unfold aboveZero
  split
  · rfl
  · rename_i hpos
    have hzero : (0.0 : Float).toModel.unpack = .zero .positive := rfl
    rw [lt_iff_compare_eq, hzero] at hpos
    rcases nonNegative_iff.1 hx with ⟨s, h⟩ | ⟨m, e, hm, h⟩ | h
    · rw [magnitude_zero h, magnitude_zero hzero]
    · rw [h] at hpos
      exact absurd rfl hpos
    · rw [h] at hpos
      exact absurd rfl hpos

variable {r : River} {change : Float}

/-- A change that is not negative does not lower the level. -/
theorem level_le_raise (hlevel : NonNegative r.level) (hchange : NonNegative change) :
    r.level ≤ (r.raise change).level := by
  have hsum := (isRounded_add hlevel hchange).nonNegative
  show r.level ≤ aboveZero (r.level + change)
  rw [le_iff_magnitude_le hlevel (nonNegative_aboveZero _), magnitude_aboveZero hsum,
    ← le_iff_magnitude_le hlevel hsum]
  exact le_add_of_nonNegative hlevel hchange

/-- A NaN empties a reservoir. -/
theorem level_raise_of_isNaN (hchange : change.isNaN = true) : (r.raise change).level = 0.0 := by
  have hunpack : change.toModel.unpack = .notANumber := by
    have hnan : change.isNaN = change.toModel.unpack.isNaN := rfl
    rw [hnan] at hchange
    cases h : change.toModel.unpack <;> rw [h] at hchange <;> first | rfl | cases hchange
  have hadd (a : UnpackedFloat) : UnpackedFloat.add .binary64 a .notANumber = .notANumber := by
    cases a <;> rfl
  have hsum : (r.level + change).isNaN = true := by
    rw [add_eq_packed, hunpack, hadd]
    rfl
  refine if_neg fun hpos => ?_
  rw [isNaN_eq_false_of_lt hpos] at hsum
  cases hsum

end River

/-! ## Dams -/

/-- A dam statement that succeeds changes the level by the factor it has set. -/
theorem Statement.level_exec_dam {name : String} {mode : DamMode} {line : Nat} {d : Day}
    (hfault : ((dam name mode line).exec d).fault = none) :
    (((dam name mode line).exec d).day.rivers.state name).level =
      ((d.rivers.state name).raise (Day.levelChange d.rainfall (d.rivers.state name)
        (((dam name mode line).exec d).day.rivers.state name).factor)).level := by
  have heffect := riverEffect_exec (s := dam name mode line) rfl d
  rw [hfault] at heffect
  generalize ((dam name mode line).exec d).day.rivers = g at heffect ⊢
  cases heffect with
  | untouched names_none => cases names_none
  | dammed _ _ _ haccepted =>
    rw [Registry.state_put, if_pos rfl, River.eq_of_setFactor haccepted]
    rfl

/-- Whatever has happened to the rivers before: a dam that lets no more pass than reaches it, with
no negative rainfall or inflow, leaves at least the water that was stored if and only if the inflow
is finite or nothing was stored. If the inflow is infinite, the reservoir is empty afterwards. -/
theorem dam_keeps_level_iff (events : List Registry.Event) (rainfall : Float)
    (environment : Environment) (sink : Sink) (name : String) (mode : DamMode) (line : Nat) :
    let before := events.foldl Registry.Event.follow Registry.empty
    let o := (Statement.dam name mode line).exec ⟨rainfall, environment, before, sink⟩
    let r := before.state name
    let r' := o.day.rivers.state name
    NonNegative rainfall → NonNegative r.inflow → o.fault = none → r'.factor ≤ 1.0 →
      (r.level ≤ r'.level ↔ r.inflow.isFinite = true ∨ r.level ≤ 0.0) ∧
      (r.inflow.isFinite = false → r'.level = 0.0) := by
  intro before o r r' hrainfall hinflow hfault hone
  have hbefore : before.Sound := Registry.sound_empty.foldl events
  have hfactor : NonNegative r'.factor :=
    (Registry.Sound.exec.1 (.dam name mode line) ⟨rainfall, environment, before, sink⟩
      hbefore name).factor
  have hlevel : r'.level = (r.raise (Day.levelChange rainfall r r'.factor)).level :=
    Statement.level_exec_dam hfault
  by_cases hfinite : magnitude r.inflow = ⊤
  · have hisFinite : r.inflow.isFinite = false := by
      rw [← Bool.not_eq_true, isFinite_iff hinflow, not_not]
      exact hfinite
    have hempty : r'.level = 0.0 := by
      rw [hlevel]
      exact River.level_raise_of_isNaN
        (Day.isNaN_levelChange hrainfall hinflow hfactor hfinite)
    refine ⟨?_, fun _ => hempty⟩
    rw [hempty, hisFinite]
    simp
  · have hisFinite : r.inflow.isFinite = true := (isFinite_iff hinflow).2 hfinite
    have hkept : r.level ≤ r'.level := by
      rw [hlevel]
      exact River.level_le_raise (hbefore name).level
        (Day.nonNegative_levelChange hrainfall hinflow hfactor hfinite hone)
    refine ⟨iff_of_true hkept (.inl hisFinite), fun hinfinite => ?_⟩
    rw [hisFinite] at hinfinite
    cases hinfinite

/-- A dam closed on a finite inflow keeps the rain it has stored; a dam opened on an infinite inflow
leaves none of it. -/
theorem dam_keeps_level_iff_both_ways :
    let executed (s : Statement) : Registry.Event := .executed s 2.0 .root .unlimited
    let number (x : Float) : Expr := .literal (.number x) 2
    let fed := [executed (.dam "A" .opened 1), executed (.river "A" (some (number 8.0)) 2)].foldl
      Registry.Event.follow Registry.empty
    let flooded := [executed (.dam "A" .opened 1),
        executed (.river "A" (some (.binary .div (number 1.0) (number 0.0) 2)) 2)].foldl
      Registry.Event.follow Registry.empty
    let closed := (Statement.dam "A" .closed 3).exec ⟨2.0, .root, fed, .unlimited⟩
    let opened := (Statement.dam "A" .opened 3).exec ⟨2.0, .root, flooded, .unlimited⟩
    (fed.state "A").level ≤ (closed.day.rivers.state "A").level ∧
      (opened.day.rivers.state "A").level = 0.0 := by
  intro executed number fed flooded closed opened
  have hrainfall : NonNegative 2.0 := ⟨by decide +kernel, by decide +kernel⟩
  have hfed : NonNegative (fed.state "A").inflow := ⟨by decide +kernel, by decide +kernel⟩
  have hflooded : NonNegative (flooded.state "A").inflow := ⟨by decide +kernel, by decide +kernel⟩
  have hkept := (dam_keeps_level_iff _ 2.0 .root .unlimited "A" .closed 3 hrainfall hfed rfl
    (by decide +kernel)).1
  have hemptied := (dam_keeps_level_iff _ 2.0 .root .unlimited "A" .opened 3 hrainfall hflooded rfl
    (by decide +kernel)).2
  exact ⟨hkept.2 (.inl (by decide +kernel)), hemptied (by decide +kernel)⟩

/-- Not every dam that lets no more pass than reaches it keeps the water that was stored. -/
theorem not_dam_keeps_level :
    ¬∀ (events : List Registry.Event) (rainfall : Float) (environment : Environment) (sink : Sink)
      (name : String) (mode : DamMode) (line : Nat),
      let before := events.foldl Registry.Event.follow Registry.empty
      let o := (Statement.dam name mode line).exec ⟨rainfall, environment, before, sink⟩
      let r := before.state name
      let r' := o.day.rivers.state name
      NonNegative rainfall → NonNegative r.inflow → o.fault = none → r'.factor ≤ 1.0 →
        r.level ≤ r'.level := by
  intro h
  let executed (s : Statement) : Registry.Event := .executed s 2.0 .root .unlimited
  let quotient : Expr := .binary .div (.literal (.number 1.0) 2) (.literal (.number 0.0) 2) 2
  have hkept := h [executed (.dam "A" .opened 1), executed (.river "A" (some quotient) 2)] 2.0 .root
    .unlimited "A" .opened 3 ⟨by decide +kernel, by decide +kernel⟩
    ⟨by decide +kernel, by decide +kernel⟩ rfl (by decide +kernel)
  revert hkept
  decide +kernel

end Watershed
