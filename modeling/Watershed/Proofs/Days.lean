import Watershed.Proofs.Output.Writes
import Watershed.Simulation

/-!
# Days in a row

Days follow each other on the same rivers, each with a program, a rainfall, a number and a sink of
its own, whether the days before succeeded or failed. The days of a simulation are such days, but
for a day whose header is refused, which does not begin. So what holds of every planned day holds
of simulations.
-/

set_option autoImplicit false

namespace Watershed

/-- A day to come: what is executed on it, how much rain falls, its number and where its output
goes. -/
structure DayPlan where
  program : Program
  rainfall : Float
  number : Nat
  sink : Sink

/-- What a planned day comes to if it begins with these rivers. -/
def DayPlan.outcome (p : DayPlan) (g : Registry) : Day.Outcome :=
  Statement.execAll p.program (Day.start g p.rainfall p.number p.sink)

/-- The rivers after planned days in a row, whether they succeed or fail. -/
def Registry.afterDays (g : Registry) (plans : List DayPlan) : Registry :=
  plans.foldl (fun rivers p => (p.outcome rivers).day.rivers) g

namespace Simulation

/-- Either the header of a day is refused, and the rivers stay as they are, or the program is
executed, and the day has its fault unless the summary is refused. -/
theorem runDay_cases (config : Config) (program : Program) (day : Nat) (g : Registry) (k : Sink) :
    ((runDay config program day g k).rivers = g ∧
      ∃ details, (runDay config program day g k).fault = some (.refusedOutput details noLine)) ∨
    ∃ k', (runDay config program day g k).rivers =
        (DayPlan.outcome ⟨program, config.rainfall, day, k'⟩ g).day.rivers ∧
      ((runDay config program day g k).fault =
          (DayPlan.outcome ⟨program, config.rainfall, day, k'⟩ g).fault ∨
        ∃ details, (runDay config program day g k).fault =
          some (.refusedOutput details noLine)) := by
  unfold runDay DayPlan.outcome
  split
  · rename_i hheader
    exact .inl ⟨rfl, _, congrArg some (Sink.fault_of_write hheader)⟩
  · rename_i k' _
    refine .inr ⟨k', ?_⟩
    split
    · rename_i heq
      rw [heq]
      exact ⟨rfl, .inl rfl⟩
    · rename_i rivers k'' heq
      rw [heq]
      cases hsummary : k''.write (summary rivers day) noLine with
      | mk last fault =>
        cases fault with
        | none => exact ⟨rfl, .inl rfl⟩
        | some f => exact ⟨rfl, .inr ⟨_, congrArg some (Sink.fault_of_write hsummary)⟩⟩

/-- A relation between rivers before and after that holds of every planned day, and goes from two
days to both in a row, holds of all days of simulations. -/
theorem rivers_runDays_induction {R : Registry → Registry → Prop} (refl : ∀ g, R g g)
    (trans : ∀ g g' g'', R g g' → R g' g'' → R g g'')
    (planned : ∀ (p : DayPlan) (g : Registry), R g (p.outcome g).day.rivers)
    (config : Config) (program : Program) (count day : Nat) (g : Registry) (k : Sink) :
    R g (runDays config program count day g k).rivers := by
  induction count generalizing day g k with
  | zero => exact refl g
  | succ count ih =>
    have hday : R g (runDay config program day g k).rivers := by
      rcases runDay_cases config program day g k with ⟨hsame, -⟩ | ⟨k', hrivers, -⟩
      · rw [hsame]
        exact refl g
      · rw [hrivers]
        exact planned _ g
    rw [runDays]
    split <;> rename_i heq <;> rw [heq] at hday
    · exact hday
    · exact trans _ _ _ hday (ih (day + 1) _ _)

end Simulation

end Watershed
