import Watershed.Grammar.Passage
import Watershed.Token.Scan

/-!
# Programs

A program text is scanned and read in one go. It is a program if nothing is wrong with it;
otherwise everything that is wrong is reported, sorted by line.
-/

set_option autoImplicit false

namespace Watershed

/-- A program is a list of statements. -/
abbrev Program := List Statement

/-- Whether a diagnostic may stand before another: it is not on a later line. -/
def Diagnostic.notAfter (a b : Diagnostic) : Bool :=
  a.line ≤ b.line

/-- All diagnostics of a text by line; on one line the lexical ones come first, and otherwise each
kind keeps its order. -/
def Diagnostic.merge (lexical : List LexicalError) (grammatical : List GrammarError) :
    List Diagnostic :=
  (lexical.map Diagnostic.lexical ++ grammatical.map Diagnostic.grammatical).mergeSort
    Diagnostic.notAfter

/-- All messages of a list of diagnostics, one below the other. -/
def Diagnostic.report (ds : List Diagnostic) : String :=
  "\n".intercalate (ds.map Diagnostic.message)

/-- Reads a program from its text, or gives everything that is wrong with the text. -/
def Program.ofText (text : String) : Except (List Diagnostic) Program :=
  let scan := Scan.ofText text
  let passage := Grammar.passage false scan.lexemes
  match Diagnostic.merge scan.errors passage.errors with
  | [] => .ok passage.statements
  | ds => .error ds

end Watershed
