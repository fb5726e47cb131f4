import Watershed.Decimal.Fixed
import Watershed.Expr.Eval
import Watershed.Sink
import Watershed.Statement

/-!
# Days

A program is executed once on each day. A statement that fails stops the day; what was done before
it stays done.
-/

set_option autoImplicit false

namespace Watershed

/-- The state of a day: its rainfall, the open scopes, the rivers and the sink for output. -/
structure Day where
  rainfall : Float
  environment : Environment
  rivers : Registry
  sink : Sink

/-- The state a day has come to, and the fault that stopped it, if any. -/
structure Day.Outcome where
  day : Day
  fault : Option Fault

namespace Day

/-- Begins the day of a number: every river starts afresh but for its level, and the root scope
binds `rainfall` and `day`. -/
def start (rivers : Registry) (rainfall : Float) (number : Nat) (sink : Sink) : Day :=
  { rainfall := rainfall
    environment :=
      (Environment.root.define "rainfall" (.number rainfall)).define
        "day" (.number (Float.ofNat number))
    rivers := rivers.startDay
    sink := sink }

/-- A day that goes on. -/
def proceed (d : Day) : Outcome :=
  ⟨d, none⟩

/-- A day stopped by a fault. -/
def stop (d : Day) (fault : Fault) : Outcome :=
  ⟨d, some fault⟩

/-- Goes on with the state of a day unless it was stopped. -/
def Outcome.andThen (o : Outcome) (next : Day → Outcome) : Outcome :=
  match o.fault with
  | none => next o.day
  | some _ => o

/-- Goes on with a value unless it could not be had, in which case the day stops as it is. -/
def given {α : Type} (d : Day) (value : Except Fault α) (next : α → Outcome) : Outcome :=
  match value with
  | .ok a => next a
  | .error fault => d.stop fault

/-- The value of an expression today. -/
def eval (d : Day) (e : Expr) : Except Fault Value :=
  e.eval d.rivers d.environment

/-- Changes the rivers. -/
def withRivers (d : Day) (rivers : Registry) : Day :=
  { d with rivers := rivers }

/-- Writes a line of output for the statement on a line. -/
def emit : Day → (text : String) → (line : Nat) → Outcome
  | ⟨rainfall, environment, rivers, sink⟩, text, line =>
    match sink.write (text ++ "\n") line with
    | (sink, fault) => ⟨⟨rainfall, environment, rivers, sink⟩, fault⟩

/-- Shows the value of an expression. -/
def print (d : Day) (e : Expr) (line : Nat) : Outcome :=
  d.given (d.eval e) fun value => d.emit value.printed line

/-- Declares a variable. -/
def declare (d : Day) (name : String) (initial : Option Expr) : Outcome :=
  let value :=
    match initial with
    | some e => d.eval e
    | none => .ok .nil
  d.given value fun v => proceed { d with environment := d.environment.define name v }

/-- Sets what a river itself brings. The river is mentioned only if its rate is a number. -/
def setRiver (d : Day) (name : String) (rate : Option Expr) (line : Nat) : Outcome :=
  let flow :=
    match rate with
    | some e => do (← d.eval e).asNumber "river" line
    | none => .ok d.rainfall
  d.given flow fun x => proceed (d.withRivers (d.rivers.update name (·.setOwn x)))

/-- The line that reports what leaves a river. -/
def outputText (name : String) (r : River) : String :=
  s!"{name} flow: {Decimal.fixed 2 r.outflow} L/s"

/-- Reports what leaves a river, which is thereby mentioned. -/
def output (d : Day) (name : String) (line : Nat) : Outcome :=
  (d.withRivers (d.rivers.mention name)).emit (outputText name (d.rivers.state name)) line

/-- Sets what a river itself brings to the sum of what leaves its sources. -/
def combine (d : Day) (name : String) (sources : List String) : Outcome :=
  let total := d.rivers.totalOutflow sources
  proceed (d.withRivers ((d.rivers.mentionAll sources).update name (·.setOwn total)))

/-- Passes what leaves one river on to another. -/
def transfer (d : Day) (source target : String) : Outcome :=
  let flow := (d.rivers.state source).outflow
  proceed (d.withRivers ((d.rivers.mention source).update target (·.receive flow)))

/-- The factor a dam is set to. The expression of an adjusted dam is evaluated in a scope of its
own that binds `inflow` and `damLevel` to the state of the river. -/
def damFactor (d : Day) (name : String) (mode : DamMode) (line : Nat) : Except Fault Float :=
  match mode with
  | .opened => .ok 1.0
  | .closed => .ok 0.0
  | .adjusted e => do
    let r := d.rivers.state name
    let env :=
      (d.environment.push.define "inflow" (.number r.inflow)).define "damLevel" (.number r.level)
    (← e.eval d.rivers env).asNumber "adjust" line

/-- The change of a reservoir's level when its dam is set to a factor: the rain, and the part of
the inflow that does not pass. -/
def levelChange (rainfall : Float) (r : River) (factor : Float) : Float :=
  rainfall + r.inflow - r.inflow * factor

/-- Sets the dam of a river, which is mentioned first, and fills or drains its reservoir. -/
def setDam (d : Day) (name : String) (mode : DamMode) (line : Nat) : Outcome :=
  let r := d.rivers.state name
  let mentioned := d.withRivers (d.rivers.mention name)
  mentioned.given (mentioned.damFactor name mode line) fun factor =>
    mentioned.given (r.setFactor factor name line) fun r' =>
      proceed (d.withRivers (d.rivers.put name (r'.raise (levelChange d.rainfall r factor))))

end Day

mutual

/-- Executes a statement. -/
def Statement.exec : Statement → Day → Day.Outcome
  | .block body _, d =>
    let o := Statement.execAll body { d with environment := d.environment.push }
    ⟨{ o.day with environment := o.day.environment.pop }, o.fault⟩
  | .expr e _, d => d.given (d.eval e) fun _ => d.proceed
  | .print e line, d => d.print e line
  | .var name initial _, d => d.declare name initial
  | .river name rate line, d => d.setRiver name rate line
  | .output name line, d => d.output name line
  | .combine name sources _, d => d.combine name sources
  | .flow source target _, d => d.transfer source target
  | .dam name mode line, d => d.setDam name mode line

/-- Executes statements one after the other, up to the first that fails. -/
def Statement.execAll : List Statement → Day → Day.Outcome
  | [], d => d.proceed
  | s :: ss, d => (s.exec d).andThen fun next => Statement.execAll ss next

end

end Watershed
