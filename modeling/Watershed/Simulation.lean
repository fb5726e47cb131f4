import Watershed.Day
import Watershed.Program

/-!
# Simulations

A simulation executes a program on one day after the other. Each day has a header, the output of
the program and a summary of all rivers.
-/

set_option autoImplicit false

namespace Watershed

/-- What can be wrong with the parameters of a simulation. -/
inductive ConfigError where
  | noDays
  | invalidRainfall
deriving DecidableEq, Repr

/-- The wording of a parameter error. -/
def ConfigError.message : ConfigError → String
  | noDays => "Days must be a positive integer."
  | invalidRainfall => "Rainfall must be a non-negative number."

/-- Whether a number can be a rainfall: it is neither negative nor a NaN. -/
def isRainfall (x : Float) : Bool :=
  !(x.isNaN || x < 0.0)

/-- The parameters of a simulation: how many days it has, and how much rain falls on each. A
simulation takes any parameters; `Config.make` checks those that come from outside. -/
structure Config where
  days : Nat
  rainfall : Float
deriving DecidableEq

namespace Config

/-- Checks parameters, the number of days first. -/
def make (days : Nat) (rainfall : Float) : Except ConfigError Config :=
  if days = 0 then .error .noDays
  else if isRainfall rainfall then .ok ⟨days, rainfall⟩
  else .error .invalidRainfall

/-- One day with one millimetre of rain. -/
def standard : Config :=
  ⟨1, 1.0⟩

/-- Parameters pass the check as they are if there is a day and the number can be a rainfall, and
otherwise they do not. -/
theorem make_eq_ok_iff {days : Nat} {rainfall : Float} {config : Config} :
    make days rainfall = .ok config ↔
      0 < days ∧ isRainfall rainfall = true ∧ config = ⟨days, rainfall⟩ := by
  unfold make
  split
  · rename_i hdays
    simp [hdays]
  · rename_i hdays
    have hpos : 0 < days := Nat.pos_of_ne_zero hdays
    split
    · rename_i hrain
      simp [hpos, hrain, eq_comm]
    · rename_i hrain
      simp [hrain]

end Config

/-- A simulation: its parameters and the rivers known so far. -/
structure Simulation where
  config : Config
  rivers : Registry

/-- The rivers and the sink a run has come to, and the fault that stopped it, if any. -/
structure Simulation.Outcome where
  rivers : Registry
  sink : Sink
  fault : Option Fault

namespace Simulation

/-- A simulation in which no river has been mentioned. -/
def fresh (config : Config) : Simulation :=
  ⟨config, Registry.empty⟩

/-- The header of a day. -/
def header (config : Config) (day : Nat) : String :=
  s!"\n=== Day {day} of {config.days} with {Decimal.fixed 1 config.rainfall} mm rainfall ===\n"

/-- The width of the column of names in a summary. -/
def nameWidth : Nat := 20

/-- A text filled up with spaces to a number of characters. -/
def padded (width : Nat) (text : String) : String :=
  text ++ String.ofList (List.replicate (width - text.length) ' ')

/-- The line of a river in a summary. -/
def summaryLine (name : String) (r : River) : String :=
  padded nameWidth name ++ s!" {Decimal.fixed 2 r.outflow} L/s "
    ++ s!"(dam {Decimal.fixed 2 r.factor}x, level {Decimal.fixed 2 r.level} m3)\n"

/-- The summary of a day: all rivers in order, or a remark that there are none. -/
def summary (rivers : Registry) (day : Nat) : String :=
  if rivers.entries.isEmpty then "No river flows computed.\n"
  else
    s!"\n== River flows after day {day} ==\n"
      ++ String.join (rivers.entries.map fun (name, r) => summaryLine name r)

/-- The line that a refused header or summary is reported on. -/
def noLine : Nat := 0

/-- Executes a program on the day of a number. If the header is refused, the day does not begin
and the rivers stay as they are. -/
def runDay (config : Config) (program : Program) (day : Nat) (rivers : Registry) (sink : Sink) :
    Outcome :=
  match sink.write (header config day) noLine with
  | (sink, some fault) => ⟨rivers, sink, some fault⟩
  | (sink, none) =>
    match Statement.execAll program (Day.start rivers config.rainfall day sink) with
    | ⟨d, some fault⟩ => ⟨d.rivers, d.sink, some fault⟩
    | ⟨⟨_, _, rivers, sink⟩, none⟩ =>
      match sink.write (summary rivers day) noLine with
      | (sink, fault) => ⟨rivers, sink, fault⟩

/-- Executes a program on a number of days in a row, up to the first that fails. -/
def runDays (config : Config) (program : Program) :
    (count : Nat) → (day : Nat) → Registry → Sink → Outcome
  | 0, _, rivers, sink => ⟨rivers, sink, none⟩
  | count + 1, day, rivers, sink =>
    match runDay config program day rivers sink with
    | ⟨rivers, sink, some fault⟩ => ⟨rivers, sink, some fault⟩
    | ⟨rivers, sink, none⟩ => runDays config program count (day + 1) rivers sink

/-- Executes a program on every day of a simulation, from the first on. -/
def run (s : Simulation) (program : Program) (sink : Sink) : Outcome :=
  runDays s.config program s.config.days 1 s.rivers sink

end Simulation

end Watershed
