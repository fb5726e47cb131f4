import Watershed.Expr
import Watershed.Token

/-!
# Tiers of operators

Operators between two operands stand on six tiers, from the loosest to the tightest. All operators
of a tier associate to the left.
-/

set_option autoImplicit false

namespace Watershed.Grammar

/-- How tightly an operator between two operands binds. -/
inductive Tier where
  | disjunction
  | conjunction
  | equality
  | comparison
  | sum
  | product
deriving DecidableEq, Repr

namespace Tier

/-- The next tighter tier; `none` stands for operands without any operator between them. -/
def tighter : Tier → Option Tier
  | disjunction => some conjunction
  | conjunction => some equality
  | equality => some comparison
  | comparison => some sum
  | sum => some product
  | product => none

/-- The number of tiers from here to the tightest. -/
def height : Option Tier → Nat
  | none => 0
  | some product => 1
  | some sum => 2
  | some comparison => 3
  | some equality => 4
  | some conjunction => 5
  | some disjunction => 6

/-- The next tighter tier is lower, which is why reading operands comes to an end. -/
theorem height_tighter_lt (t : Tier) : height t.tighter < height (some t) := by
  cases t <;> decide

end Tier

/-- An operator between two operands. -/
inductive Connective where
  | binary (op : BinaryOp)
  | logical (op : LogicalOp)
deriving DecidableEq, Repr

namespace Connective

/-- The operator a token stands for between two operands. -/
def ofToken? : Token → Option Connective
  | .keyword .or => some (.logical .or)
  | .keyword .and => some (.logical .and)
  | .sign .equalEqual => some (.binary .equal)
  | .sign .bangEqual => some (.binary .notEqual)
  | .sign .less => some (.binary .less)
  | .sign .lessEqual => some (.binary .lessEqual)
  | .sign .greater => some (.binary .greater)
  | .sign .greaterEqual => some (.binary .greaterEqual)
  | .sign .plus => some (.binary .add)
  | .sign .minus => some (.binary .sub)
  | .sign .star => some (.binary .mul)
  | .sign .slash => some (.binary .div)
  | _ => none

/-- The tier an operator stands on. -/
def tier : Connective → Tier
  | logical .or => .disjunction
  | logical .and => .conjunction
  | binary .equal => .equality
  | binary .notEqual => .equality
  | binary .less => .comparison
  | binary .lessEqual => .comparison
  | binary .greater => .comparison
  | binary .greaterEqual => .comparison
  | binary .add => .sum
  | binary .sub => .sum
  | binary .mul => .product
  | binary .div => .product

/-- Joins two operands by an operator on a line. -/
def join (c : Connective) (left right : Expr) (line : Nat) : Expr :=
  match c with
  | binary op => .binary op left right line
  | logical op => .logical op left right line

end Connective

/-- The operator of this tier that a token stands for. -/
def Tier.connective? (t : Tier) (token : Token) : Option Connective :=
  (Connective.ofToken? token).filter (·.tier = t)

/-- The operator a token stands for before an operand. -/
def unaryOp? : Token → Option UnaryOp
  | .sign .minus => some .negate
  | .sign .bang => some .not
  | _ => none

/-- The expression a single lexeme is: a literal or a name. -/
def atom? (l : Lexeme) : Option Expr :=
  match l.token with
  | .number x => some (.literal (.number x) l.line)
  | .text s => some (.literal (.text s) l.line)
  | .bool b => some (.literal (.bool b) l.line)
  | .keyword .nil => some (.literal .nil l.line)
  | .name n => some (.name n l.line)
  | _ => none

end Watershed.Grammar
