import Watershed.Console

/-!
# The prompt

Without a script, lines are read from standard input and each is run on its own. All of them are
read into one buffer, which is cleared before each. A line that is not valid UTF-8 is skipped, and
no error ends the session.
-/

set_option autoImplicit false

namespace Watershed.Prompt

/-- The byte that ends a line. -/
def lineFeed : UInt8 := 10

/-- Takes the next line off the input: the bytes up to the first line feed, which belongs to the
line, or all of them if there is none. No bytes are taken only at the end of the input. -/
def takeLine : List UInt8 → List UInt8 × List UInt8
  | [] => ([], [])
  | b :: bs =>
    if b = lineFeed then ([b], bs)
    else
      let (line, rest) := takeLine bs
      (b :: line, rest)

/-- Taking a line off the input loses nothing. -/
theorem append_takeLine (input : List UInt8) :
    (takeLine input).1 ++ (takeLine input).2 = input := by
  induction input with
  | nil => rfl
  | cons b bs ih =>
    rw [takeLine]
    split
    · rfl
    · exact congrArg (b :: ·) ih

/-- What is shown before each line is read. -/
def mark : String := "> "

/-- The complaint about a line that is not valid UTF-8. -/
def unreadable : String :=
  "Skipping unreadable line: stream did not contain valid UTF-8\n"

/-- Whether a character belongs to the end of a line. -/
def isLineEnd (c : Char) : Bool :=
  c = '\n' || c = '\r'

/-- A line without the line ends behind it. -/
def trimmed (line : String) : String :=
  String.ofList (line.toList.reverse.dropWhile isLineEnd).reverse

/-- A session between two lines: what has been written, and the buffer that lines are read
into. -/
structure Session where
  console : Console
  buffer : String

/-- A session in which nothing has happened. -/
def Session.fresh : Session :=
  ⟨Console.blank, ""⟩

/-- Writes output. -/
def Session.say (s : Session) (text : String) : Session :=
  { s with console := s.console.say text }

/-- Adds a line, given as bytes, to what a buffer holds; nothing is added if the line is not valid
UTF-8. -/
def receive (buffer : String) (line : List UInt8) : Option String :=
  (String.fromUTF8? ⟨line.toArray⟩).map (buffer ++ ·)

/-- Reads a line, given as bytes, into the cleared buffer and runs it in a fresh simulation with
the standard parameters. -/
def answer (showTree : Bool) (s : Session) (line : List UInt8) : Session :=
  let s := { s with buffer := "" }
  match receive s.buffer line with
  | none => { s with console := s.console.complain unreadable }
  | some buffer =>
    match s.console.perform showTree Config.standard (trimmed buffer) with
    | (console, failure) => ⟨console.complainOf failure, buffer⟩

/-- Shows the mark, reads a line and runs it, until the input has come to its end; then there is a
line break. -/
def session (showTree : Bool) (s : Session) (input : List UInt8) : Session :=
  match _hinput : takeLine input with
  | ([], _) => (s.say mark).say "\n"
  | (b :: line, rest) => session showTree (answer showTree (s.say mark) (b :: line)) rest
termination_by input.length
decreasing_by
  have hlength := congrArg List.length (append_takeLine input)
  simp only [_hinput, List.length_append, List.length_cons] at hlength
  omega

end Watershed.Prompt
