import Watershed.Grammar.Reading
import Watershed.Grammar.Tier

/-!
# Reading expressions

An expression of a tier is a chain of operands of the next tighter tier with operators of the tier
between them. At the bottom stand operands: any number of prefix operators before a literal, a
name or an expression in parentheses.
-/

set_option autoImplicit false

namespace Watershed.Grammar

/-- Closes a group opened on a line, after the reading of what stands inside. -/
def closeGroup (line : Nat) (inner : Reading Expr) : Reading Expr :=
  match inner with
  | ⟨.ok e, rest⟩ => (Phrase.sign .rightParen .closingParen rest).map fun _ => .group e line
  | ⟨.error wanted, rest⟩ => ⟨.error wanted, rest⟩

/-- Closing a group reads on from where its inside stopped. -/
theorem closeGroup_rest_suffix (line : Nat) (inner : Reading Expr) :
    (closeGroup line inner).rest <:+ inner.rest := by
  rw [closeGroup.eq_def]
  split
  · exact Phrase.isFront_sign _ _ _
  · exact List.suffix_refl _

mutual

/-- Reads an expression of a tier, together with the fact that it stays within the lexemes given.
-/
def readTier : (tier : Option Tier) → (ts : List Lexeme) → { r : Reading Expr // r.Within ts }
  | some t, ts =>
    match readTier t.tighter ts with
    | ⟨⟨.error wanted, rest⟩, h⟩ => ⟨⟨.error wanted, rest⟩, h⟩
    | ⟨⟨.ok left, rest⟩, h⟩ =>
      have hlt : rest.length < ts.length := h.2 left rfl
      let r := readChain t left rest
      ⟨r.val, r.property.trans h.1, fun _ _ => Nat.lt_of_le_of_lt r.property.length_le hlt⟩
  | none, [] => ⟨⟨.error .expression, []⟩, Reading.within_error (List.suffix_refl _)⟩
  | none, l :: ls =>
    match unaryOp? l.token with
    | some op =>
      let r := readTier none ls
      ⟨r.val.map (Expr.unary op · l.line), Reading.within_cons l r.property.1⟩
    | none =>
      if l.token = .sign .leftParen then
        let r := readTier (some .disjunction) ls
        ⟨closeGroup l.line r.val,
          Reading.within_cons l ((closeGroup_rest_suffix l.line r.val).trans r.property.1)⟩
      else
        match atom? l with
        | some e => ⟨⟨.ok e, ls⟩, Reading.within_cons l (List.suffix_refl _)⟩
        | none => ⟨⟨.error .expression, l :: ls⟩, Reading.within_error (List.suffix_refl _)⟩
termination_by tier ts => (ts.length, Tier.height tier)
decreasing_by
  · exact Prod.Lex.right _ (Tier.height_tighter_lt t)
  · exact Prod.Lex.left _ _ hlt
  · exact Prod.Lex.left _ _ (Nat.lt_succ_self _)
  · exact Prod.Lex.left _ _ (Nat.lt_succ_self _)

/-- Reads the operators of a tier and their right operands for as long as there are any, given the
expression to their left. -/
def readChain (t : Tier) (left : Expr) : (ts : List Lexeme) → { r : Reading Expr // r.rest <:+ ts }
  | [] => ⟨⟨.ok left, []⟩, List.suffix_refl _⟩
  | l :: ls =>
    match t.connective? l.token with
    | none => ⟨⟨.ok left, l :: ls⟩, List.suffix_refl _⟩
    | some c =>
      match readTier t.tighter ls with
      | ⟨⟨.error wanted, rest⟩, h⟩ => ⟨⟨.error wanted, rest⟩, h.1.trans (List.suffix_cons l ls)⟩
      | ⟨⟨.ok right, rest⟩, h⟩ =>
        have _hlt : rest.length < ls.length := h.2 right rfl
        let r := readChain t (c.join left right l.line) rest
        ⟨r.val, r.property.trans (h.1.trans (List.suffix_cons l ls))⟩
termination_by ts => (ts.length, 0)
decreasing_by
  · exact Prod.Lex.left _ _ (Nat.lt_succ_self _)
  · exact Prod.Lex.left _ _ (Nat.lt_succ_of_lt _hlt)

end

/-- An expression of a tier; `none` stands for a single operand. -/
def expressionOf (tier : Option Tier) : Phrase Expr :=
  fun ts => (readTier tier ts).val

/-- What follows an expression of a tier: operators of the tier with their right operands. -/
def chainOf (t : Tier) (left : Expr) : Phrase Expr :=
  fun ts => (readChain t left ts).val

/-- An expression. -/
def expression : Phrase Expr :=
  expressionOf (some .disjunction)

/-! ## The equations of the grammar -/

/-- An expression of a tier is one of the next tighter tier, with what follows it in its own tier.
-/
theorem expressionOf_some (t : Tier) :
    expressionOf (some t) = expressionOf t.tighter >>= chainOf t := by
  funext ts
  simp only [expressionOf, chainOf, bind]
  rw [readTier]
  split <;> simp_all

/-- There is no operand at the end of the lexemes. -/
theorem expressionOf_none_nil : expressionOf none [] = ⟨.error .expression, []⟩ := by
  rw [expressionOf, readTier]

/-- An operand is a unary operator with its own operand, a group, or an atom. -/
theorem expressionOf_none_cons (l : Lexeme) (ls : List Lexeme) :
    expressionOf none (l :: ls) =
      match unaryOp? l.token with
      | some op => (expressionOf none ls).map (Expr.unary op · l.line)
      | none =>
        if l.token = .sign .leftParen then closeGroup l.line (expression ls)
        else
          match atom? l with
          | some e => ⟨.ok e, ls⟩
          | none => ⟨.error .expression, l :: ls⟩ := by
  simp only [expression, expressionOf]
  conv => lhs; rw [readTier]
  split
  · rfl
  · split
    · rfl
    · split <;> rfl

/-- No operator follows at the end of the lexemes. -/
theorem chainOf_nil (t : Tier) (left : Expr) : chainOf t left [] = ⟨.ok left, []⟩ := by
  rw [chainOf, readChain]

/-- An operator of the tier is read with its right operand and joined to what stands to its left;
any other lexeme ends the chain. -/
theorem chainOf_cons (t : Tier) (left : Expr) (l : Lexeme) (ls : List Lexeme) :
    chainOf t left (l :: ls) =
      match t.connective? l.token with
      | none => ⟨.ok left, l :: ls⟩
      | some c =>
        (expressionOf t.tighter >>= fun right => chainOf t (c.join left right l.line)) ls := by
  simp only [chainOf, expressionOf, bind]
  rw [readChain]
  split
  · simp_all
  · split <;> simp_all

/-- An expression that is read takes up at least one lexeme. -/
theorem within_expressionOf (tier : Option Tier) (ts : List Lexeme) :
    (expressionOf tier ts).Within ts :=
  (readTier tier ts).property

/-- An expression is read from the front of the lexemes. -/
theorem isFront_expression : expression.IsFront :=
  fun ts => (within_expressionOf _ ts).1

end Watershed.Grammar
