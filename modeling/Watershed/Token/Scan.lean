import Watershed.Diagnostic
import Watershed.Token.Piece

/-!
# Scanning

A program text is cut into pieces. A line counter is moved on from piece to piece, each piece is put
on the line that the counter shows before it, and the tokens and the faulty stretches are picked out
in order.
-/

set_option autoImplicit false

namespace Watershed

namespace Piece

/-- Cuts a whole text into its pieces. -/
def cutAll : List Char → List Piece
  | [] => []
  | c :: cs => (cut c cs).1 :: cutAll (cut c cs).2
termination_by text => text.length
decreasing_by exact length_cut_lt c cs

/-- What stands between the marks of a closed comment. -/
def commentBody (chars : List Char) : List Char :=
  (chars.drop 2).dropLast.dropLast

/-- Where the line counter is moved by a piece. A line break moves it on by one. Other tokens, and
stretches that are never closed, move it on by the line breaks in them, and closed comments by those
between their marks. All else leaves it where it is. -/
def lineBehind (line : Nat) (p : Piece) : Nat :=
  match p.kind with
  | .token .lineBreak => line + 1
  | .token _ => line + p.chars.count '\n'
  | .openText => line + p.chars.count '\n'
  | .openComment => line + p.chars.count '\n'
  | .blockComment => line + (commentBody p.chars).count '\n'
  | .blank => line
  | .lineComment => line
  | .stray _ => line

/-- Puts pieces on the lines that the line counter shows before them, and gives the line it shows in
the end. -/
def track : (line : Nat) → List Piece → List (Nat × Piece) × Nat
  | line, [] => ([], line)
  | line, p :: ps =>
    let (placed, last) := track (lineBehind line p) ps
    ((line, p) :: placed, last)

/-- The token a piece gives, if it gives one. -/
def lexeme? : Nat × Piece → Option Lexeme
  | (line, p) =>
    match p.kind with
    | .token t => some ⟨t, String.ofList p.chars, line⟩
    | _ => none

/-- The fault a piece is, if it is one. -/
def error? : Nat × Piece → Option LexicalError
  | (line, p) =>
    match p.kind with
    | .stray c => some (.strayCharacter c line)
    | .openText => some (.unclosedText line)
    | .openComment => some (.unclosedComment line)
    | _ => none

end Piece

/-- The result of scanning a text: its tokens, the last of which stands for the end of the text,
and all faulty stretches. -/
structure Scan where
  lexemes : List Lexeme
  errors : List LexicalError
deriving DecidableEq

namespace Scan

/-- The lexeme that stands for the end of a text, on the line that the counter shows there. -/
def ending (line : Nat) : Lexeme :=
  ⟨.endOfText, "", line⟩

/-- Scans a list of characters. The line counter starts at the first line. -/
def ofChars (text : List Char) : Scan :=
  let (placed, last) := Piece.track 1 (Piece.cutAll text)
  { lexemes := placed.filterMap Piece.lexeme? ++ [ending last]
    errors := placed.filterMap Piece.error? }

/-- Scans a program text. Scanning never stops early, so every faulty stretch is found. -/
def ofText (text : String) : Scan :=
  ofChars text.toList

end Scan

end Watershed
