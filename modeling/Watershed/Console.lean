import Watershed.Simulation

/-!
# The console

What a program text does when it is run on the console: output goes to one stream, complaints to
another.
-/

set_option autoImplicit false

namespace Watershed

/-- What has been written to the two streams of the console. -/
structure Console where
  output : ByteArray
  complaints : String

/-- Why a run on the console failed. -/
inductive Failure where
  /-- The text is no program. -/
  | diagnosed (diagnostics : List Diagnostic)
  /-- A day was stopped. -/
  | stopped (fault : Fault)

/-- What is shown of a failure: each diagnostic on a line of its own, or the fault. -/
def Failure.report : Failure → String
  | diagnosed ds => String.join (ds.map fun d => d.message ++ "\n")
  | stopped fault => fault.message ++ "\n"

namespace Console

/-- A console on which nothing has been written. -/
def blank : Console :=
  ⟨ByteArray.empty, ""⟩

/-- Writes output. -/
def say (c : Console) (text : String) : Console :=
  { c with output := c.output ++ text.toUTF8 }

/-- Writes a complaint. -/
def complain (c : Console) (text : String) : Console :=
  { c with complaints := c.complaints ++ text }

end Console

/-- Writes the trees of statements, one on each line, up to the first the sink refuses. -/
def writeTrees : Program → Sink → Sink × Option Fault
  | [], sink => (sink, none)
  | s :: ss, sink =>
    match sink.write (s.tree ++ "\n") s.line with
    | (sink, none) => writeTrees ss sink
    | (sink, some fault) => (sink, some fault)

/-- Runs a program text in a fresh simulation; with `showTree`, its trees are written first.
Nothing is written if the text is no program. -/
def runText (showTree : Bool) (config : Config) (text : String) (sink : Sink) :
    Except (List Diagnostic) Simulation.Outcome :=
  match Program.ofText text with
  | .error ds => .error ds
  | .ok program =>
    match if showTree then writeTrees program sink else (sink, none) with
    | (sink, some fault) => .ok ⟨Registry.empty, sink, some fault⟩
    | (sink, none) => .ok ((Simulation.fresh config).run program sink)

namespace Console

/-- Runs a program text on the console, whose output stream takes everything. -/
def perform : Console → (showTree : Bool) → Config → (text : String) → Console × Option Failure
  | ⟨output, complaints⟩, showTree, config, text =>
    match runText showTree config text ⟨output, none⟩ with
    | .error ds => (⟨output, complaints⟩, some (.diagnosed ds))
    | .ok outcome => (⟨outcome.sink.taken, complaints⟩, outcome.fault.map .stopped)

/-- Complains about a failure, if there is one. -/
def complainOf (c : Console) (failure : Option Failure) : Console :=
  match failure with
  | none => c
  | some f => c.complain f.report

end Console

end Watershed
