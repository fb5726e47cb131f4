import Watershed.Grammar.Statement

/-!
# Reading passages

A passage is a run of statements, of a whole program or between the braces of a block. A statement
that does not fit the grammar is dropped, its error is recorded, and reading resumes at the next
place where a statement is likely to begin, so that one reading finds the errors of every
statement.
-/

set_option autoImplicit false

namespace Watershed.Grammar

/-- The statements read from a passage, the errors met in it, and the lexemes left. -/
structure Passage where
  statements : List Statement
  errors : List GrammarError
  rest : List Lexeme

/-- The reading of a statement, with the errors recorded in the blocks inside it. -/
structure StatementReading where
  reading : Reading Statement
  recorded : List GrammarError

/-- Whether a token ends a passage: the end of the text does, and a closing brace does inside a
block. -/
def endsPassage (inBlock : Bool) (token : Token) : Bool :=
  match token with
  | .endOfText => true
  | .sign .rightBrace => inBlock
  | _ => false

/-- Skips the lexemes of a statement that failed: up to the end of the passage, to just after a
terminator, or to just before a keyword that begins a statement, whichever comes first. -/
def recover (inBlock : Bool) : List Lexeme → List Lexeme
  | [] => []
  | l :: ls =>
    if endsPassage inBlock l.token then l :: ls
    else if l.token.isTerminator then ls
    else if (ls.head?.map (·.token.startsStatement)).getD false then ls
    else recover inBlock ls

/-- Recovery only skips lexemes. -/
theorem recover_suffix (inBlock : Bool) (ts : List Lexeme) : recover inBlock ts <:+ ts := by
  fun_induction recover inBlock ts with
  | case1 => exact List.suffix_refl _
  | case2 => exact List.suffix_refl _
  | case3 => exact List.suffix_cons _ _
  | case4 => exact List.suffix_cons _ _
  | case5 l ls _ _ _ ih => exact ih.trans (List.suffix_cons l ls)

/-- Recovery skips at least one lexeme unless it starts at the end of the passage. -/
theorem length_recover_lt {inBlock : Bool} {l : Lexeme} (ls : List Lexeme)
    (h : endsPassage inBlock l.token = false) :
    (recover inBlock (l :: ls)).length < (l :: ls).length := by
  rw [recover]
  simp only [h, Bool.false_eq_true, if_false]
  split
  · exact Nat.lt_succ_self _
  · split
    · exact Nat.lt_succ_self _
    · exact Nat.lt_succ_of_le (recover_suffix inBlock ls).length_le

/-- The end of a statement: a terminator, which is read, or what ends a passage, which is not. -/
def statementEnd : Phrase Unit
  | [] => ⟨.ok (), []⟩
  | l :: ls =>
    if l.token.isTerminator then ⟨.ok (), ls⟩
    else if endsPassage true l.token then ⟨.ok (), l :: ls⟩
    else ⟨.error .endOfStatement, l :: ls⟩

/-- The end of a statement is read from the front of the lexemes. -/
theorem isFront_statementEnd : statementEnd.IsFront := by
  intro ts
  fun_cases statementEnd ts with
  | case1 => exact List.suffix_refl _
  | case2 => exact List.suffix_cons _ _
  | case3 => exact List.suffix_refl _
  | case4 => exact List.suffix_refl _

/-- Looks for the end of a statement that was read; a block needs none. -/
def ended (r : Reading Statement) : Reading Statement :=
  match r with
  | ⟨.ok s, rest⟩ => if s.isBlock then ⟨.ok s, rest⟩ else (statementEnd rest).map fun _ => s
  | ⟨.error wanted, rest⟩ => ⟨.error wanted, rest⟩

/-- Looking for the end of a statement reads on from where the statement stopped. -/
theorem ended_rest_suffix (r : Reading Statement) : (ended r).rest <:+ r.rest := by
  fun_cases ended r with
  | case1 => exact List.suffix_refl _
  | case2 _ rest => exact isFront_statementEnd rest
  | case3 => exact List.suffix_refl _

/-- A statement with its end takes up at least one lexeme, as the statement does. -/
theorem within_ended {ts : List Lexeme} {r : Reading Statement} (h : r.Within ts) :
    (ended r).Within ts := by
  refine ⟨(ended_rest_suffix r).trans h.1, fun s hs => ?_⟩
  refine Nat.lt_of_le_of_lt (ended_rest_suffix r).length_le ?_
  obtain ⟨outcome, rest⟩ := r
  cases outcome with
  | ok s' => exact h.2 s' rfl
  | error wanted => simp [ended] at hs

/-- The passage of one statement: the statement, or its error and the lexemes left by recovery. -/
def conclude (inBlock : Bool) (r : StatementReading) : Passage :=
  match ended r.reading with
  | ⟨.ok s, rest⟩ => ⟨[s], r.recorded, rest⟩
  | ⟨.error wanted, rest⟩ => ⟨[], r.recorded ++ [⟨wanted, rest.head?⟩], recover inBlock rest⟩

/-- The passage of one statement leaves a suffix of the lexemes, whether the statement is read or
skipped. -/
theorem conclude_rest_suffix {ts : List Lexeme} (inBlock : Bool) {r : StatementReading}
    (h : r.reading.Within ts) : (conclude inBlock r).rest <:+ ts := by
  have hsuffix := (within_ended h).1
  fun_cases conclude inBlock r with
  | case1 s rest heq => rwa [heq] at hsuffix
  | case2 wanted rest heq =>
    rw [heq] at hsuffix
    exact (recover_suffix inBlock rest).trans hsuffix

/-- A statement takes up at least one lexeme, whether it is read or skipped, unless it stands at
the end of the passage. -/
theorem length_conclude_lt {inBlock : Bool} {l : Lexeme} {ls : List Lexeme} {r : StatementReading}
    (hr : r.reading.Within (l :: ls)) (h : endsPassage inBlock l.token = false) :
    (conclude inBlock r).rest.length < (l :: ls).length := by
  obtain ⟨hsuffix, hshort⟩ := within_ended hr
  fun_cases conclude inBlock r with
  | case1 s rest heq =>
    rw [heq] at hshort
    exact hshort s rfl
  | case2 wanted rest heq =>
    rw [heq] at hsuffix
    rcases Nat.lt_or_eq_of_le hsuffix.length_le with hlt | hsame
    · exact Nat.lt_of_le_of_lt (recover_suffix inBlock rest).length_le hlt
    · obtain rfl : rest = l :: ls := hsuffix.eq_of_length hsame
      exact length_recover_lt ls h

/-- Closes a block opened on a line, after the passage inside it. -/
def closeBlock (line : Nat) (body : Passage) : StatementReading :=
  { reading :=
      (Phrase.sign .rightBrace .closingBrace body.rest).map fun _ => .block body.statements line
    recorded := body.errors }

/-- Closing a block reads on from where its body stopped. -/
theorem closeBlock_rest_suffix (line : Nat) (body : Passage) :
    (closeBlock line body).reading.rest <:+ body.rest :=
  Phrase.isFront_sign _ _ _

/-- Two passages, the second of which follows the first. -/
def Passage.followedBy (first second : Passage) : Passage :=
  ⟨first.statements ++ second.statements, first.errors ++ second.errors, second.rest⟩

/-- Skips the terminators before a statement. -/
def skipTerminators (ts : List Lexeme) : { rest : List Lexeme // rest <:+ ts } :=
  ⟨ts.dropWhile (·.token.isTerminator), List.dropWhile_suffix _⟩

mutual

/-- Reads a passage, together with the fact that it stays within the lexemes given. -/
def readPassage (inBlock : Bool) (ts : List Lexeme) : { p : Passage // p.rest <:+ ts } :=
  match skipTerminators ts with
  | ⟨[], _⟩ => ⟨⟨[], [], []⟩, List.nil_suffix⟩
  | ⟨l :: ls, hts⟩ =>
    if hend : endsPassage inBlock l.token then
      ⟨⟨[], [], l :: ls⟩, hts⟩
    else
      let r := readStatement l ls
      let first := conclude inBlock r.val
      have _hfirst : first.rest.length < (l :: ls).length :=
        length_conclude_lt r.property (Bool.eq_false_iff.2 hend)
      let more := readPassage inBlock first.rest
      ⟨first.followedBy more.val,
        more.property.trans ((conclude_rest_suffix inBlock r.property).trans hts)⟩
termination_by 2 * ts.length + 1
decreasing_by
  · have := hts.length_le
    simp only [List.length_cons] at *
    omega
  · have := Nat.lt_of_lt_of_le _hfirst hts.length_le
    change 2 * first.rest.length + 1 < 2 * ts.length + 1
    omega

/-- Reads a statement from its first lexeme and the others, together with the fact that it stays
within them. -/
def readStatement (l : Lexeme) (ls : List Lexeme) :
    { r : StatementReading // r.reading.Within (l :: ls) } :=
  if l.token = .sign .leftBrace then
    let body := readPassage true ls
    ⟨closeBlock l.line body.val,
      Reading.within_cons l ((closeBlock_rest_suffix l.line body.val).trans body.property)⟩
  else
    ⟨⟨simpleStatement l ls, []⟩, within_simpleStatement l ls⟩
termination_by 2 * (ls.length + 1)

end

/-- A passage, inside a block or not. -/
def passage (inBlock : Bool) (ts : List Lexeme) : Passage :=
  (readPassage inBlock ts).val

/-- A block, opened on a line by a brace already read. -/
def block (line : Nat) (ts : List Lexeme) : StatementReading :=
  closeBlock line (passage true ts)

/-- A statement. -/
def statement : List Lexeme → StatementReading
  | [] => ⟨⟨.error .statement, []⟩, []⟩
  | l :: ls => (readStatement l ls).val

/-- One statement with its end, or the recovery from its error. -/
def item (inBlock : Bool) (ts : List Lexeme) : Passage :=
  conclude inBlock (statement ts)

/-! ## The equations of the grammar -/

/-- A passage is its first statement, after any terminators, followed by the passage behind it. -/
theorem passage_eq (inBlock : Bool) (ts : List Lexeme) :
    passage inBlock ts =
      match ts.dropWhile (·.token.isTerminator) with
      | [] => ⟨[], [], []⟩
      | l :: ls =>
        if endsPassage inBlock l.token then ⟨[], [], l :: ls⟩
        else
          (item inBlock (l :: ls)).followedBy (passage inBlock (item inBlock (l :: ls)).rest) := by
  simp only [passage, item, statement]
  conv => lhs; rw [readPassage]
  split
  · rename_i hskip
    have hnil : ts.dropWhile (·.token.isTerminator) = [] := congrArg Subtype.val hskip
    simp only [hnil]
  · rename_i l ls hts hskip
    have hcons : ts.dropWhile (·.token.isTerminator) = l :: ls := congrArg Subtype.val hskip
    simp only [hcons]
    split <;> rfl

/-- A statement that begins with a brace is a block, and any other is simple. -/
theorem statement_cons (l : Lexeme) (ls : List Lexeme) :
    statement (l :: ls) =
      if l.token = .sign .leftBrace then block l.line ls else ⟨simpleStatement l ls, []⟩ := by
  simp only [statement, block, passage]
  rw [readStatement]
  split <;> rfl

/-- A passage leaves a suffix of the lexemes. -/
theorem passage_rest_suffix (inBlock : Bool) (ts : List Lexeme) :
    (passage inBlock ts).rest <:+ ts :=
  (readPassage inBlock ts).property

/-- A statement, or the recovery from it, takes up at least one lexeme unless the passage ends
there. -/
theorem length_item_lt {inBlock : Bool} {l : Lexeme} (ls : List Lexeme)
    (h : endsPassage inBlock l.token = false) :
    (item inBlock (l :: ls)).rest.length < (l :: ls).length :=
  length_conclude_lt (readStatement l ls).property h

end Watershed.Grammar
