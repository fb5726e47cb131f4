import Watershed.CommandLine
import Watershed.Console
import Watershed.Day
import Watershed.Decimal.Double
import Watershed.Decimal.Fixed
import Watershed.Decimal.Layout
import Watershed.Decimal.Reading
import Watershed.Decimal.Shortest
import Watershed.Diagnostic
import Watershed.Environment
import Watershed.Expr
import Watershed.Expr.Eval
import Watershed.Fault
import Watershed.Grammar.Expression
import Watershed.Grammar.Passage
import Watershed.Grammar.Reading
import Watershed.Grammar.Statement
import Watershed.Grammar.Tier
import Watershed.Main
import Watershed.Operator
import Watershed.Program
import Watershed.Prompt
import Watershed.Registry
import Watershed.River
import Watershed.Simulation
import Watershed.Sink
import Watershed.Statement
import Watershed.Token
import Watershed.Token.Piece
import Watershed.Token.Scan
import Watershed.Value
import Watershed.Proofs.Atomicity
import Watershed.Proofs.Combining
import Watershed.Proofs.Days
import Watershed.Proofs.Decimal.Neighbourhoods
import Watershed.Proofs.Decimal.Numerals
import Watershed.Proofs.Diagnostics
import Watershed.Proofs.Doubles
import Watershed.Proofs.Doubles.Magnitudes
import Watershed.Proofs.Doubles.Rounding
import Watershed.Proofs.Effects
import Watershed.Proofs.Execution
import Watershed.Proofs.FaultLines
import Watershed.Proofs.Framing
import Watershed.Proofs.Grammar.Breakdown
import Watershed.Proofs.Grammar.Containment
import Watershed.Proofs.Grammar.Derivation
import Watershed.Proofs.Grammar.ErrorOrder
import Watershed.Proofs.Grammar.FirstError
import Watershed.Proofs.Grammar.Foresight
import Watershed.Proofs.Grammar.Items
import Watershed.Proofs.Grammar.Progress
import Watershed.Proofs.Independence
import Watershed.Proofs.Isolation
import Watershed.Proofs.Locality
import Watershed.Proofs.Mentions
import Watershed.Proofs.Output.Refusal
import Watershed.Proofs.Output.Runs
import Watershed.Proofs.Output.Writes
import Watershed.Proofs.Reads
import Watershed.Proofs.RegistryOrder
import Watershed.Proofs.Repetition
import Watershed.Proofs.Resemblance
import Watershed.Proofs.Reservoirs
import Watershed.Proofs.Scan.Cuts
import Watershed.Proofs.Scan.LineBreaks
import Watershed.Proofs.Scan.Lines
import Watershed.Proofs.Scan.Rescanning
import Watershed.Proofs.Scan.Tiling
import Watershed.Proofs.Scan.Words
import Watershed.Proofs.Scopes
import Watershed.Proofs.Scoping
import Watershed.Proofs.Sessions
import Watershed.Proofs.StoredWater
import Watershed.Proofs.Syntax
import Watershed.Proofs.Trees
