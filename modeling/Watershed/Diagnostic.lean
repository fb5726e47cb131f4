import Watershed.Token

/-!
# Diagnostics

What can be wrong with a program text: a stretch that no token can be made of, or a token that
does not fit where it stands. Each diagnostic has a line and one fixed wording.
-/

set_option autoImplicit false

namespace Watershed

/-- A stretch of program text that is no token. -/
inductive LexicalError where
  /-- A character that starts no token. -/
  | strayCharacter (character : Char) (line : Nat)
  /-- A text literal, opened on the line, that is never closed. -/
  | unclosedText (line : Nat)
  /-- A block comment, opened on the line, that is never closed. -/
  | unclosedComment (line : Nat)
deriving DecidableEq, Repr

namespace LexicalError

/-- The line on which the faulty stretch starts. -/
def line : LexicalError → Nat
  | strayCharacter _ line => line
  | unclosedText line => line
  | unclosedComment line => line

/-- What is wrong, without the line. -/
def complaint : LexicalError → String
  | strayCharacter c _ => s!"Unexpected character '{c}'."
  | unclosedText _ => "Unterminated string."
  | unclosedComment _ => "Unterminated comment."

/-- The diagnostic as it is shown. -/
def message (e : LexicalError) : String :=
  s!"[line {e.line}] Error: {e.complaint}"

end LexicalError

/-- What the grammar calls for at some place. -/
inductive Expectation where
  | statement
  /-- The name of a river after one of the words that take one. -/
  | riverAfter (word : Keyword)
  | equalsAfterRiver
  | sourceRiver
  | furtherSourceRiver
  | arrowAfterSource
  | targetRiver
  | damMode
  | variableName
  | expression
  | closingParen
  | closingBrace
  | endOfStatement
deriving DecidableEq, Repr

/-- The wording of an expectation. -/
def Expectation.message : Expectation → String
  | statement => "Expected statement."
  | riverAfter word => s!"Expected river name after '{word.spelling}'."
  | equalsAfterRiver => "Expected '=' after river name."
  | sourceRiver => "Expected source river name."
  | furtherSourceRiver => "Expected source river name after '+'."
  | arrowAfterSource => "Expected '->' after source river."
  | targetRiver => "Expected target river name."
  | damMode => "Expected 'open', 'close' or 'adjust' after river name."
  | variableName => "Expected variable name."
  | expression => "Expected expression."
  | closingParen => "Expected ')' after expression."
  | closingBrace => "Expected '\x7d' after block."
  | endOfStatement => "Expected end of statement."

/-- A place where the tokens leave the grammar: what was wanted there, and what was found instead.
Nothing is found where the tokens run out. -/
structure GrammarError where
  wanted : Expectation
  found : Option Lexeme
deriving DecidableEq

namespace GrammarError

/-- The line of the token found, and `0` where there is none. -/
def line (e : GrammarError) : Nat :=
  (e.found.map Lexeme.line).getD 0

/-- The place as it is shown: the token found, in quotes and on one line, or the end. -/
def place (e : GrammarError) : String :=
  match e.found with
  | none => "end"
  | some l =>
    match l.token with
    | .endOfText => "end"
    | .lineBreak => "'\\n'"
    | _ => s!"'{l.spelling}'"

/-- The diagnostic as it is shown. -/
def message (e : GrammarError) : String :=
  s!"[line {e.line}] Error at {e.place}: {e.wanted.message}"

end GrammarError

/-- Anything that is wrong with a program text. -/
inductive Diagnostic where
  | lexical (error : LexicalError)
  | grammatical (error : GrammarError)
deriving DecidableEq

namespace Diagnostic

/-- The line a diagnostic refers to. -/
def line : Diagnostic → Nat
  | lexical e => e.line
  | grammatical e => e.line

/-- The diagnostic as it is shown. -/
def message : Diagnostic → String
  | lexical e => e.message
  | grammatical e => e.message

end Diagnostic

end Watershed
