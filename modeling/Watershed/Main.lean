import Watershed.CommandLine

/-!
# The program

Standard input, standard output and the script file; all else is decided by
`Watershed.CommandLine`.
-/

set_option autoImplicit false

namespace Watershed.CommandLine

/-- Writes out what has been said and complained of. -/
def flush (c : Console) : IO Unit := do
  let out ← IO.getStdout
  out.write c.output
  out.flush
  (← IO.getStderr).putStr c.complaints

/-- The script fault that a failure to read a file is. -/
def scriptFault : IO.Error → ScriptFault
  | .noFileOrDirectory .. => .absent
  | .inappropriateType _ code _ => if code = 21 then .directory else .notDirectory
  | e => .other (toString e)

/-- Reads the bytes of a script. -/
def readScript (path : String) : IO (Except ScriptFault ByteArray) := do
  try
    return .ok (← IO.FS.readBinFile path)
  catch e =>
    return .error (scriptFault e)

/-- Reads one line of bytes, with its line feed if it has one; nothing is left at the end of
input. -/
partial def readSegment (input : IO.FS.Stream) (segment : List UInt8) : IO (List UInt8) := do
  match (← input.read 1).toList with
  | [b] =>
    if b = Prompt.lineFeed then return (b :: segment).reverse else readSegment input (b :: segment)
  | _ => return segment.reverse

/-- Shows the mark and runs a line, until there are no more lines. What has been written is not
kept. -/
partial def converse (showTree : Bool) (input : IO.FS.Stream) (buffer : String) : IO Unit := do
  flush (Console.blank.say Prompt.mark)
  match ← readSegment input [] with
  | [] => flush (Console.blank.say "\n")
  | line =>
    let s := Prompt.answer showTree ⟨Console.blank, buffer⟩ line
    flush s.console
    converse showTree input s.buffer

end Watershed.CommandLine

open Watershed Watershed.CommandLine in
/-- Does what the arguments ask for and reports the status. -/
def main (args : List String) : IO UInt32 := do
  match request args with
  | .prompt showTree =>
    converse showTree (← IO.getStdin) ""
    return ExitStatus.success.code.toUInt32
  | .script path config showTree =>
    let (console, status) := runScript Console.blank path (← readScript path) config showTree
    flush console
    return status.code.toUInt32
  | _ =>
    let (console, status) := run args (fun _ => .error .absent) []
    flush console
    return status.code.toUInt32
