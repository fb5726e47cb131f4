import Watershed.Grammar.Expression
import Watershed.Statement

/-!
# Reading simple statements

Every statement but a block is read by a phrase: its first keyword settles its form, and without
one it is an expression.
-/

set_option autoImplicit false

namespace Watershed.Grammar

open Phrase (name sign)

/-- An optional initial value: an equals sign and an expression, or nothing. -/
def initial : Phrase (Option Expr)
  | [] => ⟨.ok none, []⟩
  | l :: ls =>
    if l.token = .sign .equals then (expression ls).map some else ⟨.ok none, l :: ls⟩

/-- An initial value is read from the front of the lexemes. -/
theorem isFront_initial : initial.IsFront := by
  intro ts
  fun_cases initial ts with
  | case1 => exact List.suffix_refl _
  | case2 l ls => exact (isFront_expression ls).trans (List.suffix_cons _ _)
  | case3 => exact List.suffix_refl _

/-- The sources of a combined river after the first, each after a plus sign. -/
def furtherSources : Phrase (List String)
  | [] => ⟨.ok [], []⟩
  | [l] => if l.token = .sign .plus then ⟨.error .furtherSourceRiver, []⟩ else ⟨.ok [], [l]⟩
  | l :: m :: ls =>
    if l.token = .sign .plus then
      match m.token with
      | .name n => (furtherSources ls).map (n :: ·)
      | _ => ⟨.error .furtherSourceRiver, m :: ls⟩
    else
      ⟨.ok [], l :: m :: ls⟩

/-- Further sources are read from the front of the lexemes. -/
theorem isFront_furtherSources : furtherSources.IsFront := by
  intro ts
  fun_induction furtherSources ts with
  | case1 => exact List.suffix_refl _
  | case2 l => exact List.suffix_cons _ _
  | case3 l => exact List.suffix_refl _
  | case4 l m ls _ _ _ ih => exact ih.trans ((List.suffix_cons m ls).trans (List.suffix_cons l _))
  | case5 l m ls => exact List.suffix_cons _ _
  | case6 l m ls => exact List.suffix_refl _

/-- How a dam is set, with the line of the word that says so. -/
def damMode : Phrase (DamMode × Nat)
  | [] => ⟨.error .damMode, []⟩
  | l :: ls =>
    match l.token with
    | .keyword .opening => ⟨.ok (.opened, l.line), ls⟩
    | .keyword .closing => ⟨.ok (.closed, l.line), ls⟩
    | .keyword .adjust => (expression ls).map fun e => (.adjusted e, l.line)
    | _ => ⟨.error .damMode, l :: ls⟩

/-- The mode of a dam is read from the front of the lexemes. -/
theorem isFront_damMode : damMode.IsFront := by
  intro ts
  fun_cases damMode ts with
  | case1 => exact List.suffix_refl _
  | case2 => exact List.suffix_cons _ _
  | case3 => exact List.suffix_cons _ _
  | case4 l ls => exact (isFront_expression ls).trans (List.suffix_cons _ _)
  | case5 => exact List.suffix_refl _

/-- What follows the word `river`. -/
def riverStatement (line : Nat) : Phrase Statement := do
  let n ← name (.riverAfter .river)
  let rate ← initial
  return .river n rate line

/-- What follows the word `output`. -/
def outputStatement (line : Nat) : Phrase Statement := do
  let n ← name (.riverAfter .output)
  return .output n line

/-- What follows the word `combine`. -/
def combineStatement (line : Nat) : Phrase Statement := do
  let n ← name (.riverAfter .combine)
  sign .equals .equalsAfterRiver
  let first ← name .sourceRiver
  let further ← furtherSources
  return .combine n (first :: further) line

/-- What follows the word `flow`. -/
def flowStatement (line : Nat) : Phrase Statement := do
  let source ← name .sourceRiver
  sign .arrow .arrowAfterSource
  let target ← name .targetRiver
  return .flow source target line

/-- What follows the word `dam`. The statement stands on the line of its mode. -/
def damStatement : Phrase Statement := do
  let n ← name (.riverAfter .dam)
  let (mode, line) ← damMode
  return .dam n mode line

/-- What follows the word `var`. -/
def varStatement (line : Nat) : Phrase Statement := do
  let n ← name .variableName
  let value ← initial
  return .var n value line

/-- What follows the word `print`. -/
def printStatement (line : Nat) : Phrase Statement := do
  let e ← expression
  return .print e line

/-- What follows a keyword that begins a statement on a line. -/
def statementAfter? (word : Keyword) (line : Nat) : Option (Phrase Statement) :=
  match word with
  | .river => some (riverStatement line)
  | .output => some (outputStatement line)
  | .combine => some (combineStatement line)
  | .flow => some (flowStatement line)
  | .dam => some damStatement
  | .var => some (varStatement line)
  | .print => some (printStatement line)
  | .nil | .opening | .closing | .adjust | .and | .or => none

/-- What follows the keyword of a statement is read from the front of the lexemes. -/
theorem isFront_statementAfter? {word : Keyword} {line : Nat} {p : Phrase Statement}
    (h : statementAfter? word line = some p) : p.IsFront := by
  have hname (wanted : Expectation) := Phrase.isFront_name wanted
  have hsign (s : Sign) (wanted : Expectation) := Phrase.isFront_sign s wanted
  have hpure (s : Statement) := Phrase.isFront_pure s
  cases word <;> simp only [statementAfter?, Option.some.injEq, reduceCtorEq] at h <;> subst h
  · exact Phrase.isFront_bind (hname _) fun _ =>
      Phrase.isFront_bind isFront_initial fun _ => hpure _
  · exact Phrase.isFront_bind (hname _) fun _ => hpure _
  · exact Phrase.isFront_bind (hname _) fun _ => Phrase.isFront_bind (hsign _ _) fun _ =>
      Phrase.isFront_bind (hname _) fun _ =>
        Phrase.isFront_bind isFront_furtherSources fun _ => hpure _
  · exact Phrase.isFront_bind (hname _) fun _ => Phrase.isFront_bind (hsign _ _) fun _ =>
      Phrase.isFront_bind (hname _) fun _ => hpure _
  · exact Phrase.isFront_bind (hname _) fun _ =>
      Phrase.isFront_bind isFront_damMode fun _ => hpure _
  · exact Phrase.isFront_bind (hname _) fun _ =>
      Phrase.isFront_bind isFront_initial fun _ => hpure _
  · exact Phrase.isFront_bind isFront_expression fun _ => hpure _

/-- A statement that is an expression, on the line of the expression's first token. -/
def expressionStatement (line : Nat) : Phrase Statement :=
  fun ts => (expression ts).map (Statement.expr · line)

/-- A statement that is no block, given its first lexeme and the others. -/
def simpleStatement (l : Lexeme) (ls : List Lexeme) : Reading Statement :=
  match l.token with
  | .keyword word =>
    match statementAfter? word l.line with
    | some p => p ls
    | none => expressionStatement l.line (l :: ls)
  | _ => expressionStatement l.line (l :: ls)

/-- An expression that stands as a statement takes up at least one lexeme. -/
theorem within_expressionStatement (line : Nat) (ts : List Lexeme) :
    (expressionStatement line ts).Within ts := by
  obtain ⟨hsuffix, hshort⟩ := within_expressionOf (some .disjunction) ts
  refine ⟨hsuffix, fun s hs => ?_⟩
  simp only [expressionStatement, expression, Reading.map] at hs ⊢
  cases houtcome : (expressionOf (some .disjunction) ts).outcome with
  | ok e => exact hshort e houtcome
  | error wanted => simp [houtcome, Except.map] at hs

/-- A simple statement takes up at least one lexeme. -/
theorem within_simpleStatement (l : Lexeme) (ls : List Lexeme) :
    (simpleStatement l ls).Within (l :: ls) := by
  fun_cases simpleStatement l ls with
  | case1 word _ p hp => exact Reading.within_cons l (isFront_statementAfter? hp ls)
  | case2 => exact within_expressionStatement _ _
  | case3 => exact within_expressionStatement _ _

end Watershed.Grammar
