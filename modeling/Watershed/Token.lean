/-!
# Tokens

The words and signs a program is made of, and how each of them is spelled.
-/

set_option autoImplicit false

namespace Watershed

/-- The reserved words that are not literals of truth. -/
inductive Keyword where
  | nil
  | river
  | output
  | combine
  | flow
  | dam
  | opening
  | closing
  | adjust
  | var
  | print
  | and
  | or
deriving DecidableEq, Repr

namespace Keyword

/-- The spelling of a reserved word. -/
def spelling : Keyword → String
  | nil => "nil"
  | river => "river"
  | output => "output"
  | combine => "combine"
  | flow => "flow"
  | dam => "dam"
  | opening => "open"
  | closing => "close"
  | adjust => "adjust"
  | var => "var"
  | print => "print"
  | and => "and"
  | or => "or"

/-- All reserved words. -/
def all : List Keyword :=
  [nil, river, output, combine, flow, dam, opening, closing, adjust, var, print, and, or]

/-- Whether a statement can begin with this word and with no other meaning. -/
def startsStatement : Keyword → Bool
  | river | output | combine | flow | dam | var | print => true
  | nil | opening | closing | adjust | and | or => false

end Keyword

/-- The signs of the language. -/
inductive Sign where
  | arrow
  | plus
  | minus
  | star
  | slash
  | leftParen
  | rightParen
  | leftBrace
  | rightBrace
  | comma
  | semicolon
  | equals
  | equalEqual
  | bangEqual
  | lessEqual
  | greaterEqual
  | less
  | greater
  | bang
deriving DecidableEq, Repr

/-- The tokens of the language, with what they denote. -/
inductive Token where
  | number (value : Float)
  | text (value : String)
  | bool (value : Bool)
  | name (value : String)
  | keyword (word : Keyword)
  | sign (sign : Sign)
  /-- A line break, which ends a statement. -/
  | lineBreak
  /-- The end of the program text. -/
  | endOfText
deriving DecidableEq

namespace Token

/-- The token of a word: a literal of truth, a reserved word or else a name. -/
def ofWord (word : String) : Token :=
  if word = "true" then .bool true
  else if word = "false" then .bool false
  else
    match Keyword.all.find? (·.spelling = word) with
    | some k => .keyword k
    | none => .name word

/-- Whether the token is a keyword that begins a statement. Recovery from an error resumes there.
-/
def startsStatement : Token → Bool
  | keyword k => k.startsStatement
  | _ => false

/-- Whether the token ends a statement and is used up by it. -/
def isTerminator : Token → Bool
  | lineBreak => true
  | sign .semicolon => true
  | _ => false

end Token

/-- A token as it stands in a program: with its spelling and the line it starts on. -/
structure Lexeme where
  token : Token
  spelling : String
  line : Nat
deriving DecidableEq

end Watershed
