import Watershed.Fault
import Watershed.Value

/-!
# Operators

The operators of expressions, how they are spelled and what they do to values.
-/

set_option autoImplicit false

namespace Watershed

/-- Operators that evaluate both operands. -/
inductive BinaryOp where
  | add
  | sub
  | mul
  | div
  | less
  | greater
  | lessEqual
  | greaterEqual
  | equal
  | notEqual
deriving DecidableEq, Repr

/-- Operators with one operand. -/
inductive UnaryOp where
  | negate
  | not
deriving DecidableEq, Repr

/-- Operators that evaluate their right operand only if the left one does not decide. -/
inductive LogicalOp where
  | and
  | or
deriving DecidableEq, Repr

namespace BinaryOp

/-- The spelling of an operator. -/
def spelling : BinaryOp → String
  | add => "+"
  | sub => "-"
  | mul => "*"
  | div => "/"
  | less => "<"
  | greater => ">"
  | lessEqual => "<="
  | greaterEqual => ">="
  | equal => "=="
  | notEqual => "!="

/-- Applies a function of two numbers, and demands that both operands are numbers. -/
def onNumbers (op : BinaryOp) (f : Float → Float → Value) (left right : Value) (line : Nat) :
    Except Fault Value :=
  match left, right with
  | .number a, .number b => .ok (f a b)
  | _, _ => .error (.wrongKind op.spelling .numbers line)

/-- Applies an operator to two values: `+` also joins texts, and equality takes any values. -/
def apply (op : BinaryOp) (left right : Value) (line : Nat) : Except Fault Value :=
  match op with
  | equal => .ok (.bool (left.equals right))
  | notEqual => .ok (.bool (!left.equals right))
  | add =>
    match left, right with
    | .number a, .number b => .ok (.number (a + b))
    | .text a, .text b => .ok (.text (a ++ b))
    | _, _ => .error (.wrongKind add.spelling .numbersOrTexts line)
  | sub => sub.onNumbers (fun a b => .number (a - b)) left right line
  | mul => mul.onNumbers (fun a b => .number (a * b)) left right line
  | div => div.onNumbers (fun a b => .number (a / b)) left right line
  | less => less.onNumbers (fun a b => .bool (a < b)) left right line
  | greater => greater.onNumbers (fun a b => .bool (b < a)) left right line
  | lessEqual => lessEqual.onNumbers (fun a b => .bool (a ≤ b)) left right line
  | greaterEqual => greaterEqual.onNumbers (fun a b => .bool (b ≤ a)) left right line

end BinaryOp

namespace UnaryOp

/-- The spelling of an operator. -/
def spelling : UnaryOp → String
  | negate => "-"
  | not => "!"

/-- Applies an operator to a value: only numbers can be negated, and any value has a truth. -/
def apply (op : UnaryOp) (value : Value) (line : Nat) : Except Fault Value :=
  match op with
  | not => .ok (.bool (!value.isTruthy))
  | negate =>
    match value with
    | .number x => .ok (.number (-x))
    | _ => .error (.wrongKind negate.spelling .numericOperand line)

end UnaryOp

namespace LogicalOp

/-- The spelling of an operator. -/
def spelling : LogicalOp → String
  | and => "and"
  | or => "or"

/-- Whether the left operand is already the result. -/
def decidedBy (op : LogicalOp) (left : Value) : Bool :=
  match op with
  | and => !left.isTruthy
  | or => left.isTruthy

end LogicalOp

/-- The number a value is, demanded by `construct` on a line. -/
def Value.asNumber (value : Value) (construct : String) (line : Nat) : Except Fault Float :=
  match value with
  | .number x => .ok x
  | _ => .error (.wrongKind construct .number line)

end Watershed
