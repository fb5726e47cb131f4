import Watershed.Decimal.Reading
import Watershed.Prompt

/-!
# The command line

Arguments name a script and the parameters of its simulation. Without a script there is a prompt.
-/

set_option autoImplicit false

namespace Watershed

/-- How a run of the program ends. -/
inductive ExitStatus where
  | success
  /-- The arguments were malformed. -/
  | usage
  /-- The script is no program. -/
  | data
  /-- A day was stopped by a fault. -/
  | software
  /-- The script could not be read. -/
  | unreadable
deriving DecidableEq, Repr

/-- The number a status is reported as. -/
def ExitStatus.code : ExitStatus → UInt8
  | success => 0
  | usage => 64
  | data => 65
  | software => 70
  | unreadable => 74

/-- Why a script could not be read. -/
inductive ScriptFault where
  | absent
  | directory
  | notDirectory
  | notText
  | other (details : String)
deriving DecidableEq, Repr

/-- The wording of a script fault. -/
def ScriptFault.message : ScriptFault → String
  | absent => "No such file or directory (os error 2)"
  | directory => "Is a directory (os error 21)"
  | notDirectory => "Not a directory (os error 20)"
  | notText => "stream did not contain valid UTF-8"
  | other details => details

namespace CommandLine

/-- Arguments sorted into the option and the positional ones: a script and numbers. -/
structure Arguments where
  showTree : Bool
  script : Option String
  numbers : List String
deriving DecidableEq, Repr

/-- The option that asks for the trees of the program. -/
def treeOption : String := "--print-ast"

/-- The argument after which all others are positional. -/
def endOfOptions : String := "--"

/-- Whether what follows a minus sign looks like a number: digits, among which there may be one
point and after it one `e`, neither of them first, and the `e` not last. -/
def looksNumeric (cs : List Char) : Bool :=
  let afterWhole := cs.dropWhile Char.isDigit
  let started := afterWhole.length < cs.length
  match afterWhole with
  | [] => true
  | '.' :: more => started && exponentLooksNumeric (more.dropWhile Char.isDigit)
  | other => started && exponentLooksNumeric other
where
  /-- Whether the end of such a number is nothing, or an `e` with digits after it. -/
  exponentLooksNumeric : List Char → Bool
    | [] => true
    | 'e' :: c :: more => (c :: more).all Char.isDigit
    | _ => false

/-- Whether an argument before the end of options is positional: it does not start with a minus
sign, is nothing else, or is a negative number after the script. -/
def isPositional (afterScript : Bool) (arg : String) : Bool :=
  match arg.toList with
  | '-' :: c :: cs => afterScript && looksNumeric (c :: cs)
  | _ => true

/-- Adds a positional argument. The first one is the script, which cannot be empty. -/
def Arguments.add (a : Arguments) (arg : String) : Option Arguments :=
  match a.script with
  | some _ => some { a with numbers := a.numbers ++ [arg] }
  | none => if arg.isEmpty then none else some { a with script := some arg }

/-- Adds the arguments one after the other; `none` if one of them is malformed. -/
def addAll (a : Arguments) : List String → Option Arguments
  | [] => some a
  | arg :: args =>
    if arg = endOfOptions then args.foldlM Arguments.add a
    else if arg = treeOption then
      if a.showTree then none else addAll { a with showTree := true } args
    else if isPositional a.script.isSome arg then (a.add arg).bind (addAll · args)
    else none

/-- Sorts arguments; `none` if one of them is malformed. -/
def arguments? (args : List String) : Option Arguments :=
  addAll ⟨false, none, []⟩ args

/-- What can be wrong with the numbers among the arguments. -/
inductive NumberError where
  | tooMany
  | notDays (text : String)
  | notRainfall (text : String)
  | config (error : ConfigError)
deriving DecidableEq, Repr

/-- The wording of a number error. -/
def NumberError.message : NumberError → String
  | tooMany => "Too many arguments."
  | notDays text => s!"Days must be a positive integer, found '{text}'."
  | notRainfall text => s!"Rainfall must be a number, found '{text}'."
  | config error => error.message

/-- Reads a number of days. -/
def readDays (text : String) : Except NumberError Nat :=
  match Decimal.readCount? text with
  | some n => .ok n
  | none => .error (.notDays text)

/-- Reads a rainfall. -/
def readRainfall (text : String) : Except NumberError Float :=
  match Decimal.readFloat? text with
  | some x => .ok x
  | none => .error (.notRainfall text)

/-- The days and the rainfall that the numbers stand for: one number is the rainfall, and two are
the days and the rainfall. -/
def readNumbers : List String → Except NumberError (Nat × Float)
  | [] => .ok (Config.standard.days, Config.standard.rainfall)
  | [rainfall] => do return (Config.standard.days, ← readRainfall rainfall)
  | [days, rainfall] => do return (← readDays days, ← readRainfall rainfall)
  | _ => .error .tooMany

/-- The parameters that the numbers stand for. -/
def config (numbers : List String) : Except NumberError Config := do
  let (days, rainfall) ← readNumbers numbers
  (Config.make days rainfall).mapError .config

/-- What the arguments ask for. -/
inductive Request where
  /-- Nothing: an argument is malformed. -/
  | malformed
  /-- Nothing: a number is wrong. -/
  | misnumbered (error : NumberError)
  /-- To run a script. -/
  | script (path : String) (config : Config) (showTree : Bool)
  /-- To run lines as they are read. -/
  | prompt (showTree : Bool)

/-- What the arguments ask for. Numbers are checked even where they are not needed. -/
def request (args : List String) : Request :=
  match arguments? args with
  | none => .malformed
  | some a =>
    match config a.numbers with
    | .error e => .misnumbered e
    | .ok config =>
      match a.script with
      | some path => .script path config a.showTree
      | none => .prompt a.showTree

/-- The reminder of how the program is called. -/
def usage : String :=
  "Usage: wflow [--print-ast] [script] [days] [rainfall]\n"

/-- The text of a script. -/
def decode (bytes : ByteArray) : Except ScriptFault String :=
  match String.fromUTF8? bytes with
  | some text => .ok text
  | none => .error .notText

/-- The status of a run that may have failed. -/
def statusOf : Option Failure → ExitStatus
  | none => .success
  | some (.diagnosed _) => .data
  | some (.stopped _) => .software

/-- Runs a script, given its path and what reading it gave. -/
def runScript (c : Console) (path : String) (content : Except ScriptFault ByteArray)
    (config : Config) (showTree : Bool) : Console × ExitStatus :=
  match content.bind decode with
  | .error fault =>
    (c.complain s!"Failed to read the script '{path}': {fault.message}\n", .unreadable)
  | .ok text =>
    match c.perform showTree config text with
    | (c, failure) => (c.complainOf failure, statusOf failure)

/-- Does what the arguments ask for, given a way to read scripts and all of standard input. -/
def run (args : List String) (readScript : String → Except ScriptFault ByteArray)
    (input : List UInt8) : Console × ExitStatus :=
  match request args with
  | .malformed => (Console.blank.complain usage, .usage)
  | .misnumbered e => (Console.blank.complain (e.message ++ "\n" ++ usage), .usage)
  | .script path config showTree => runScript Console.blank path (readScript path) config showTree
  | .prompt showTree => ((Prompt.session showTree Prompt.Session.fresh input).console, .success)

end CommandLine

end Watershed
