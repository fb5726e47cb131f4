import Watershed.Expr

/-!
# Statements

A program is a list of statements.
-/

set_option autoImplicit false

namespace Watershed

/-- How a dam is set. -/
inductive DamMode where
  /-- All inflow passes. -/
  | opened
  /-- No inflow passes. -/
  | closed
  /-- The factor of the inflow that passes is computed. -/
  | adjusted (factor : Expr)
deriving DecidableEq

/-- A statement, with the line it stands on. -/
inductive Statement where
  | block (body : List Statement) (line : Nat)
  | expr (expr : Expr) (line : Nat)
  | print (expr : Expr) (line : Nat)
  /-- Declares a variable in the innermost scope, with `nil` if no initial value is given. -/
  | var (name : String) (initial : Option Expr) (line : Nat)
  /-- Sets a river's own flow for the day, to the rainfall if no rate is given. -/
  | river (name : String) (rate : Option Expr) (line : Nat)
  /-- Reports what leaves a river. -/
  | output (river : String) (line : Nat)
  /-- Sets a river's own flow to the sum of what leaves other rivers. -/
  | combine (river : String) (sources : List String) (line : Nat)
  /-- Adds what leaves one river to what comes into another. -/
  | flow (source target : String) (line : Nat)
  /-- Sets the dam of a river. -/
  | dam (river : String) (mode : DamMode) (line : Nat)

namespace Statement

/-- The line of a statement. -/
def line : Statement → Nat
  | block _ line => line
  | expr _ line => line
  | print _ line => line
  | var _ _ line => line
  | river _ _ line => line
  | output _ line => line
  | combine _ _ line => line
  | flow _ _ line => line
  | dam _ _ line => line

/-- Whether a statement is a block, which needs nothing after it to end it. -/
def isBlock : Statement → Bool
  | block _ _ => true
  | _ => false

mutual

/-- The statement as a parenthesised tree. -/
def tree : Statement → String
  | block body _ => "(block" ++ treeAll body ++ ")"
  | expr e _ => "(; " ++ e.tree ++ ")"
  | print e _ => "(print " ++ e.tree ++ ")"
  | var name (some e) _ => "(var " ++ name ++ " " ++ e.tree ++ ")"
  | var name none _ => "(var " ++ name ++ ")"
  | river name (some e) _ => "(river " ++ name ++ " = " ++ e.tree ++ ")"
  | river name none _ => "(river " ++ name ++ ")"
  | output name _ => "(output " ++ name ++ ")"
  | combine name sources _ => "(combine " ++ name ++ " = " ++ " + ".intercalate sources ++ ")"
  | flow source target _ => "(flow " ++ source ++ " -> " ++ target ++ ")"
  | dam name .opened _ => "(dam " ++ name ++ " open)"
  | dam name .closed _ => "(dam " ++ name ++ " close)"
  | dam name (.adjusted e) _ => "(dam " ++ name ++ " adjust " ++ e.tree ++ ")"

/-- The trees of several statements, each after a space. -/
def treeAll : List Statement → String
  | [] => ""
  | s :: ss => " " ++ s.tree ++ treeAll ss

end

end Statement

end Watershed
