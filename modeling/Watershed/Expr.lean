import Watershed.Operator

/-!
# Expressions

Each node of an expression holds the line it stands on, which faults refer to.
-/

set_option autoImplicit false

namespace Watershed

/-- An expression. Parentheses are kept as a node of their own. -/
inductive Expr where
  | literal (value : Value) (line : Nat)
  /-- A name, of a river or of a variable. -/
  | name (name : String) (line : Nat)
  | group (inner : Expr) (line : Nat)
  | unary (op : UnaryOp) (operand : Expr) (line : Nat)
  | binary (op : BinaryOp) (left right : Expr) (line : Nat)
  | logical (op : LogicalOp) (left right : Expr) (line : Nat)
deriving DecidableEq

namespace Expr

/-- The line of an expression: of its first token, or of its operator if it has two operands. -/
def line : Expr → Nat
  | literal _ line => line
  | name _ line => line
  | group _ line => line
  | unary _ _ line => line
  | binary _ _ _ line => line
  | logical _ _ _ line => line

/-- The expression as a parenthesised tree, operators first. -/
def tree : Expr → String
  | literal value _ => value.literalText
  | name n _ => n
  | group inner _ => "(group " ++ inner.tree ++ ")"
  | unary op operand _ => "(" ++ op.spelling ++ " " ++ operand.tree ++ ")"
  | binary op left right _ => "(" ++ op.spelling ++ " " ++ left.tree ++ " " ++ right.tree ++ ")"
  | logical op left right _ => "(" ++ op.spelling ++ " " ++ left.tree ++ " " ++ right.tree ++ ")"

end Expr

end Watershed
