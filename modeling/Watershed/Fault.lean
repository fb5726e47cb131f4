/-!
# Faults

What can go wrong while a day is evaluated. Each fault has a line and one fixed wording.
-/

set_option autoImplicit false

namespace Watershed

/-- What an operator or a statement demands of its operands. -/
inductive Demand where
  /-- A number where a statement needs one. -/
  | number
  /-- Two numbers, or two texts. -/
  | numbersOrTexts
  /-- Two numbers. -/
  | numbers
  /-- One number. -/
  | numericOperand
deriving DecidableEq, Repr

/-- The wording of a demand. -/
def Demand.message : Demand → String
  | number => "Expected number."
  | numbersOrTexts => "Operands must be two numbers or two strings."
  | numbers => "Operands must be numbers."
  | numericOperand => "Operand must be a number."

/-- A reason why the evaluation of a day stops. -/
inductive Fault where
  /-- A name that is neither a known river nor bound in any open scope. -/
  | undefinedName (name : String) (line : Nat)
  /-- An operand of the wrong kind; `construct` is the operator or statement that met it. -/
  | wrongKind (construct : String) (demand : Demand) (line : Nat)
  /-- A dam factor that is negative or not a number. -/
  | invalidFactor (river : String) (factor : Float) (line : Nat)
  /-- The sink refused some output; the line is `0` for output that belongs to no statement. -/
  | refusedOutput (details : String) (line : Nat)
deriving DecidableEq

namespace Fault

/-- The line a fault refers to. -/
def line : Fault → Nat
  | undefinedName _ line => line
  | wrongKind _ _ line => line
  | invalidFactor _ _ line => line
  | refusedOutput _ line => line

/-- What went wrong, without the line. -/
def complaint : Fault → String
  | undefinedName name _ => s!"Undefined variable '{name}'."
  | wrongKind _ demand _ => demand.message
  | invalidFactor _ factor _ =>
    if factor.isNaN then "Dam factor must be a number." else "Dam factor cannot be negative."
  | refusedOutput details _ => s!"Failed to write output: {details}"

/-- The fault as it is shown. -/
def message (f : Fault) : String :=
  s!"{f.complaint}\n[line {f.line}]"

end Fault

end Watershed
