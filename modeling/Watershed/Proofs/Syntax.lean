import Watershed.Statement

/-!
# Statements taken apart

Blocks may stand inside blocks. What holds of every simple statement, and goes from a list of
statements to a block around it, holds of every statement and of every list of statements. The
simple statements of a program, in the order of the text, say which rivers it mentions, which
variables it declares and which names its expressions use.
-/

set_option autoImplicit false

namespace Watershed

namespace Expr

/-- The names used in an expression, from left to right. -/
def names : Expr → List String
  | literal _ _ => []
  | name n _ => [n]
  | group inner _ => inner.names
  | unary _ operand _ => operand.names
  | binary _ left right _ => left.names ++ right.names
  | logical _ left right _ => left.names ++ right.names

end Expr

namespace Statement

/-- Induction over statements and lists of statements at once. -/
theorem induction_lists {P : Statement → Prop} {Q : List Statement → Prop}
    (simple : ∀ s, s.isBlock = false → P s) (block : ∀ body line, Q body → P (block body line))
    (nil : Q []) (cons : ∀ s ss, P s → Q ss → Q (s :: ss)) : (∀ s, P s) ∧ ∀ ss, Q ss := by
  have hstatement : ∀ s, P s := by
    apply @Statement.rec P Q
    case block => exact block
    case nil => exact nil
    case cons => exact cons
    all_goals
      intros
      exact simple _ rfl
  refine ⟨hstatement, fun ss => ?_⟩
  induction ss with
  | nil => exact nil
  | cons s ss ih => exact cons s ss (hstatement s) ih

mutual

/-- The simple statements of a statement, in the order of the text. -/
def simples : Statement → List Statement
  | block body _ => simplesAll body
  | s => [s]

/-- The simple statements of a list of statements, in the order of the text. -/
def simplesAll : List Statement → List Statement
  | [] => []
  | s :: ss => s.simples ++ simplesAll ss

end

/-- The expressions that stand directly in a statement. -/
def expressions : Statement → List Expr
  | block _ _ => []
  | expr e _ => [e]
  | print e _ => [e]
  | var _ initial _ => initial.toList
  | river _ rate _ => rate.toList
  | output _ _ => []
  | combine _ _ _ => []
  | flow _ _ _ => []
  | dam _ (.adjusted e) _ => [e]
  | dam _ _ _ => []

/-- The rivers that stand directly in a statement, sources before targets. -/
def mentioned : Statement → List String
  | block _ _ => []
  | expr _ _ => []
  | print _ _ => []
  | var _ _ _ => []
  | river name _ _ => [name]
  | output name _ => [name]
  | combine name sources _ => sources ++ [name]
  | flow source target _ => [source, target]
  | dam name _ _ => [name]

/-- The variable that a statement declares, if it declares one. -/
def declared : Statement → List String
  | var name _ _ => [name]
  | _ => []

/-- A simple statement is the only simple statement in it. -/
theorem simples_of_isBlock_eq_false {s : Statement} (h : s.isBlock = false) : s.simples = [s] := by
  cases s with
  | block => cases h
  | _ => simp [simples]

end Statement

/-- The rivers a program mentions, in the order of the text. -/
def riversOf (program : List Statement) : List String :=
  (Statement.simplesAll program).flatMap Statement.mentioned

/-- The variables a program declares, in blocks or outside. -/
def variablesOf (program : List Statement) : List String :=
  (Statement.simplesAll program).flatMap Statement.declared

/-- The names the expressions of a program use. -/
def namesUsedBy (program : List Statement) : List String :=
  (Statement.simplesAll program).flatMap fun s => s.expressions.flatMap Expr.names

end Watershed
