import Watershed.Fault

/-!
# Rivers

The state of one river. Its flows and its dam are those of the current day; the level of its
reservoir carries over from day to day.
-/

set_option autoImplicit false

namespace Watershed

/-- The state of a river. -/
structure River where
  /-- What the river itself brings today. -/
  own : Float := 0.0
  /-- What other rivers pass on to it today. -/
  incoming : Float := 0.0
  /-- The factor of the inflow that passes the dam. -/
  factor : Float := 1.0
  /-- The volume held behind the dam. -/
  level : Float := 0.0
deriving DecidableEq

namespace River

/-- Everything that reaches the river today, before the dam. -/
def inflow (r : River) : Float :=
  r.own + r.incoming

/-- What leaves the river today, after the dam. -/
def outflow (r : River) : Float :=
  r.inflow * r.factor

/-- Begins a new day: only the level is kept. -/
def startDay (r : River) : River :=
  { level := r.level }

/-- Replaces what the river itself brings. -/
def setOwn (r : River) (flow : Float) : River :=
  { r with own := flow }

/-- Adds to what other rivers pass on. -/
def receive (r : River) (flow : Float) : River :=
  { r with incoming := r.incoming + flow }

/-- Whether a number can be a dam factor: it is neither negative nor a NaN. -/
def isFactor (x : Float) : Bool :=
  !(x.isNaN || x < 0.0)

/-- Sets the dam factor of the river called `name`; what is no factor is refused. -/
def setFactor (r : River) (factor : Float) (name : String) (line : Nat) : Except Fault River :=
  if isFactor factor then .ok { r with factor := factor }
  else .error (.invalidFactor name factor line)

/-- The larger of a number and zero, and zero for a NaN. -/
def aboveZero (x : Float) : Float :=
  if 0.0 < x then x else 0.0

/-- Moves the level of the reservoir, never below zero. -/
def raise (r : River) (change : Float) : River :=
  { r with level := aboveZero (r.level + change) }

end River

end Watershed
