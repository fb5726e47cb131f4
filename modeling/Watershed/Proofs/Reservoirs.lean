import Watershed.Proofs.Days
import Watershed.Proofs.Effects

/-!
# Reservoirs and dams stay in their bounds

Flows may be any numbers, negative and infinite ones and NaNs included, but the factor of a dam and
the level of a reservoir are never negative and never a NaN. Every operation on a river keeps that
up, so it holds of every registry that operations, statements and simulations come to from the empty
one, in whatever order they happen and whether they succeed or fail.
-/

set_option autoImplicit false

namespace Watershed

/-! ## Comparing numbers -/

open Float.Model (UnpackedFloat)

/-- A number is smaller if it compares as smaller once it is taken apart. -/
theorem lt_iff_compare_eq {x y : Float} :
    x < y ↔ x.toModel.unpack.compare y.toModel.unpack = some .lt := by
  show Float.lt x y = true ↔ _
  rw [Float.lt, decide_eq_true_iff]
  show (x.toModel.unpack.compare y.toModel.unpack == some .lt) = true ↔ _
  exact beq_iff_eq

/-- Nothing compares with a NaN. -/
theorem compare_notANumber (a : UnpackedFloat) : a.compare .notANumber = none := by
  cases a <;> rfl

/-- Comparing the other way round swaps the result. -/
theorem compare_swap (a b : UnpackedFloat) : b.compare a = (a.compare b).map Ordering.swap := by
  cases a with
  | notANumber => cases b <;> rfl
  | infinity s =>
    cases b with
    | infinity s' => cases s <;> cases s' <;> rfl
    | _ => cases s <;> rfl
  | zero s =>
    cases b with
    | infinity s' => cases s' <;> rfl
    | finite s' => cases s' <;> rfl
    | _ => rfl
  | finite s m e =>
    cases b with
    | notANumber => rfl
    | infinity s' => cases s <;> cases s' <;> rfl
    | zero => cases s <;> rfl
    | finite s' m' e' =>
      -- Of two numbers of one sign, the exponents decide first and then the mantissas.
      have hswap : (compare e' e).then (compare m' m) =
          ((compare e e').then (compare m m')).swap := by
        rw [Ordering.swap_then, Int.compare_swap, Nat.compare_swap]
      cases s with
      | positive =>
        cases s' with
        | positive => exact congrArg some hswap
        | negative => rfl
      | negative =>
        cases s' with
        | positive => rfl
        | negative => exact congrArg (fun o => some o.swap) hswap

/-- Of two numbers not both are smaller than the other. -/
theorem not_lt_of_lt {x y : Float} (h : x < y) : ¬y < x := by
  rw [lt_iff_compare_eq] at h ⊢
  rw [compare_swap, h]
  simp

/-- A number that another one is smaller than is no NaN. -/
theorem isNaN_eq_false_of_lt {x y : Float} (h : x < y) : y.isNaN = false := by
  rw [lt_iff_compare_eq] at h
  show y.toModel.unpack.isNaN = false
  cases hy : y.toModel.unpack with
  | notANumber =>
    rw [hy, compare_notANumber] at h
    cases h
  | _ => rfl

/-- Whether a number is neither a NaN nor negative. -/
def NonNegative (x : Float) : Prop :=
  x.isNaN = false ∧ ¬x < 0.0

/-- Zero is not negative. -/
theorem nonNegative_zero : NonNegative 0.0 := by
  unfold NonNegative
  decide

/-- One is not negative. -/
theorem nonNegative_one : NonNegative 1.0 := by
  unfold NonNegative
  decide

/-- The larger of a number and zero is not negative, even for a NaN. -/
theorem nonNegative_aboveZero (x : Float) : NonNegative (River.aboveZero x) := by
  unfold River.aboveZero
  split
  · rename_i hpos
    exact ⟨isNaN_eq_false_of_lt hpos, not_lt_of_lt hpos⟩
  · exact nonNegative_zero

/-- The factors that a dam accepts are the numbers that are not negative. -/
theorem isFactor_eq_true_iff {x : Float} : River.isFactor x = true ↔ NonNegative x := by
  simp [River.isFactor, NonNegative]

/-! ## Rivers -/

/-- Whether the dam and the reservoir of a river are in their bounds. -/
structure River.Sound (r : River) : Prop where
  factor : NonNegative r.factor
  level : NonNegative r.level

namespace River

/-- An operation on the state of a river. -/
inductive Operation where
  | startDay
  | setOwn (flow : Float)
  | receive (flow : Float)
  | setFactor (factor : Float) (name : String) (line : Nat)
  | raise (change : Float)

/-- Performs an operation; a factor that is refused leaves the state as it is. -/
def Operation.perform (r : River) : Operation → River
  | startDay => r.startDay
  | setOwn flow => r.setOwn flow
  | receive flow => r.receive flow
  | setFactor factor name line =>
    match r.setFactor factor name line with
    | .ok r' => r'
    | .error _ => r
  | raise change => r.raise change

/-- A river in the default state is in its bounds. -/
theorem sound_default : Sound {} :=
  ⟨nonNegative_one, nonNegative_zero⟩

namespace Sound

variable {r : River}

/-- A new day keeps a river in its bounds. -/
theorem startDay (h : r.Sound) : r.startDay.Sound :=
  ⟨nonNegative_one, h.level⟩

/-- Setting what a river brings keeps it in its bounds. -/
theorem setOwn (h : r.Sound) (flow : Float) : (r.setOwn flow).Sound :=
  ⟨h.factor, h.level⟩

/-- Passing water on to a river keeps it in its bounds. -/
theorem receive (h : r.Sound) (flow : Float) : (r.receive flow).Sound :=
  ⟨h.factor, h.level⟩

/-- A factor that is accepted keeps a river in its bounds. -/
theorem setFactor (h : r.Sound) {factor : Float} {name : String} {line : Nat} {r' : River}
    (haccepted : r.setFactor factor name line = .ok r') : r'.Sound := by
  unfold River.setFactor at haccepted
  split at haccepted
  · rename_i hfactor
    cases haccepted
    exact ⟨isFactor_eq_true_iff.1 hfactor, h.level⟩
  · cases haccepted

/-- Moving the level keeps a river in its bounds. -/
theorem raise (h : r.Sound) (change : Float) : (r.raise change).Sound :=
  ⟨h.factor, nonNegative_aboveZero _⟩

/-- Every operation keeps a river in its bounds. -/
theorem perform (h : r.Sound) (operation : Operation) : (Operation.perform r operation).Sound := by
  cases operation with
  | startDay => exact h.startDay
  | setOwn flow => exact h.setOwn flow
  | receive flow => exact h.receive flow
  | setFactor factor name line =>
    rw [Operation.perform]
    split
    · rename_i r' haccepted
      exact h.setFactor haccepted
    · exact h
  | raise change => exact h.raise change

end Sound

end River

/-! ## Registries -/

/-- Whether all rivers are in their bounds. -/
def Registry.Sound (g : Registry) : Prop :=
  ∀ name, (g.state name).Sound

namespace Registry

/-- The rivers of an empty registry are in their bounds. -/
theorem sound_empty : Sound empty :=
  fun _ => River.sound_default

namespace Sound

variable {g : Registry}

/-- Putting a river that is in its bounds keeps all rivers in theirs. -/
theorem put (h : g.Sound) (name : String) {r : River} (hr : r.Sound) : (g.put name r).Sound := by
  intro n
  rw [state_put]
  split
  · exact hr
  · exact h n

/-- Mentioning a river keeps all rivers in their bounds. -/
theorem mention (h : g.Sound) (name : String) : (g.mention name).Sound := by
  intro n
  rw [state_mention]
  exact h n

/-- Mentioning rivers keeps all rivers in their bounds. -/
theorem mentionAll (h : g.Sound) (names : List String) : (g.mentionAll names).Sound := by
  intro n
  rw [state_mentionAll]
  exact h n

/-- A new day keeps all rivers in their bounds. -/
theorem startDay (h : g.Sound) : g.startDay.Sound := by
  intro n
  rw [state_startDay]
  exact (h n).startDay

/-- Every effect of a statement keeps the rivers in their bounds. -/
theorem effect {d : Day} {s : Statement} {fault : Option Fault}
    (heffect : RiverEffect d s g fault) (h : d.rivers.Sound) : g.Sound := by
  cases heffect with
  | untouched => exact h
  | unset => exact h
  | set name rate line flow => exact h.put name ((h name).setOwn flow)
  | reported name => exact h.mention name
  | combined name sources =>
    have hsources := h.mentionAll sources
    exact hsources.put name ((hsources name).setOwn _)
  | passedOn source target =>
    have hsource := h.mention source
    exact hsource.put target ((hsource target).receive _)
  | undammed name => exact h.mention name
  | dammed name mode line haccepted => exact h.put name (((h name).setFactor haccepted).raise _)

/-- Every execution keeps all rivers in their bounds. -/
theorem exec :
    (∀ (s : Statement) (d : Day), d.rivers.Sound → (s.exec d).day.rivers.Sound) ∧
    ∀ (ss : List Statement) (d : Day), d.rivers.Sound →
      (Statement.execAll ss d).day.rivers.Sound := by
  apply Statement.rivers_exec_induction (R := fun g g' => g.Sound → g'.Sound)
  · intro g h
    exact h
  · intro g g' g'' hfirst hsecond h
    exact hsecond (hfirst h)
  · intro d s g fault heffect h
    exact effect heffect h

/-- Days in a row keep all rivers in their bounds. -/
theorem runDays (h : g.Sound) (config : Config) (program : Program) (count day : Nat) (k : Sink) :
    (Simulation.runDays config program count day g k).rivers.Sound := by
  refine Simulation.rivers_runDays_induction (R := fun g g' => g.Sound → g'.Sound)
    ?_ ?_ ?_ config program count day g k h
  · intro g h
    exact h
  · intro g g' g'' hfirst hsecond h
    exact hsecond (hfirst h)
  · intro p g h
    exact exec.2 p.program _ h.startDay

end Sound

/-! ## Everything that can happen -/

/-- Something that happens to the rivers. A statement may be executed on any day: with any rainfall,
in any scopes, and into any sink. -/
inductive Event where
  | begun (rainfall : Float) (number : Nat) (sink : Sink)
  | executed (s : Statement) (rainfall : Float) (environment : Environment) (sink : Sink)
  | simulated (config : Config) (program : Program) (count day : Nat) (sink : Sink)
  | mentioned (name : String)
  | operated (name : String) (operation : River.Operation)

/-- What becomes of the rivers when something happens to them. -/
def Event.follow (g : Registry) : Event → Registry
  | begun rainfall number sink => (Day.start g rainfall number sink).rivers
  | executed s rainfall environment sink => (s.exec ⟨rainfall, environment, g, sink⟩).day.rivers
  | simulated config program count day sink =>
    (Simulation.runDays config program count day g sink).rivers
  | mentioned name => g.mention name
  | operated name operation => g.update name (River.Operation.perform · operation)

/-- Whatever happens keeps all rivers in their bounds. -/
theorem Sound.follow {g : Registry} (h : g.Sound) (event : Event) : (event.follow g).Sound := by
  cases event with
  | begun rainfall number sink => exact h.startDay
  | executed s rainfall environment sink =>
    exact Sound.exec.1 s ⟨rainfall, environment, g, sink⟩ h
  | simulated config program count day sink => exact h.runDays config program count day sink
  | mentioned name => exact h.mention name
  | operated name operation => exact h.put name ((h name).perform operation)

/-- Whatever happens one after the other keeps all rivers in their bounds. -/
theorem Sound.foldl {g : Registry} (h : g.Sound) (events : List Event) :
    (events.foldl Event.follow g).Sound := by
  induction events generalizing g with
  | nil => exact h
  | cons event events ih => exact ih (h.follow event)

end Registry

/-- Whatever happens to the rivers, from the empty registry on: no dam factor and no level is a NaN
or negative. -/
theorem dams_and_reservoirs_nonNegative (events : List Registry.Event) (name : String) :
    let r := (events.foldl Registry.Event.follow Registry.empty).state name
    r.factor.isNaN = false ∧ ¬r.factor < 0.0 ∧ r.level.isNaN = false ∧ ¬r.level < 0.0 := by
  intro r
  have hsound : r.Sound := Registry.sound_empty.foldl events name
  obtain ⟨hfactorNumber, hfactor⟩ := hsound.factor
  obtain ⟨hlevelNumber, hlevel⟩ := hsound.level
  exact ⟨hfactorNumber, hfactor, hlevelNumber, hlevel⟩

end Watershed
