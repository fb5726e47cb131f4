import Watershed.Environment
import Watershed.Expr
import Watershed.Registry

/-!
# Evaluating expressions

Evaluation reads the rivers and the variables and changes neither. Operands are evaluated from
left to right, and the first fault is the result.
-/

set_option autoImplicit false

namespace Watershed

/-- What a name used on a line means: what leaves the river of that name if it has been mentioned,
and the variable of that name otherwise. -/
def resolve (rivers : Registry) (env : Environment) (name : String) (line : Nat) :
    Except Fault Value :=
  match rivers.get? name with
  | some river => .ok (.number river.outflow)
  | none => env.get name line

/-- The value of an expression. -/
def Expr.eval (rivers : Registry) (env : Environment) : Expr → Except Fault Value
  | literal value _ => .ok value
  | name n line => resolve rivers env n line
  | group inner _ => inner.eval rivers env
  | unary op operand line => do
    let value ← operand.eval rivers env
    op.apply value line
  | binary op left right line => do
    let a ← left.eval rivers env
    let b ← right.eval rivers env
    op.apply a b line
  | logical op left right _ => do
    let a ← left.eval rivers env
    if op.decidedBy a then .ok a else right.eval rivers env

end Watershed
