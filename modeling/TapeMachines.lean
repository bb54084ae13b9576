import TapeMachines.Analysis.Post
import TapeMachines.Analysis.Problem
import TapeMachines.Analysis.Turing
import TapeMachines.Analysis.Walk
import TapeMachines.Builtin
import TapeMachines.CommandLine.Options
import TapeMachines.CommandLine.Report
import TapeMachines.CommandLine.Session
import TapeMachines.Diagnostic
import TapeMachines.Direction
import TapeMachines.Fault
import TapeMachines.Files.Disk
import TapeMachines.Files.Loading
import TapeMachines.Files.Path
import TapeMachines.History
import TapeMachines.Json.Basic
import TapeMachines.Json.Codec
import TapeMachines.Json.Lexer
import TapeMachines.Json.Parser
import TapeMachines.Json.Printer
import TapeMachines.Kind
import TapeMachines.Machine
import TapeMachines.Main
import TapeMachines.Post.Automaton
import TapeMachines.Post.Listing
import TapeMachines.Post.Program
import TapeMachines.Program
import TapeMachines.Tape
import TapeMachines.Tape.Sparse
import TapeMachines.Text.Lines
import TapeMachines.Text.Numeral
import TapeMachines.Text.Quoted
import TapeMachines.Text.Space
import TapeMachines.Text.Trim
import TapeMachines.Text.Unprintable
import TapeMachines.Text.Utf8
import TapeMachines.Turing.Automaton
import TapeMachines.Turing.Listing
import TapeMachines.Turing.Program
import TapeMachines.Proofs.Analysis.Halts
import TapeMachines.Proofs.Analysis.Messages
import TapeMachines.Proofs.Analysis.Post
import TapeMachines.Proofs.Analysis.ShadowedRules
import TapeMachines.Proofs.Analysis.Turing
import TapeMachines.Proofs.Analysis.Turns
import TapeMachines.Proofs.Analysis.UnreachedLines
import TapeMachines.Proofs.Analysis.UnreachedStates
import TapeMachines.Proofs.Analysis.Walk
import TapeMachines.Proofs.Builtin.BinaryIncrement
import TapeMachines.Proofs.Builtin.Invert
import TapeMachines.Proofs.Builtin.UnaryAddition
import TapeMachines.Proofs.Builtin.UnaryIncrement
import TapeMachines.Proofs.Calls
import TapeMachines.Proofs.Cells
import TapeMachines.Proofs.CommandLine.Answers
import TapeMachines.Proofs.CommandLine.Arguments
import TapeMachines.Proofs.CommandLine.Diagnostics
import TapeMachines.Proofs.CommandLine.Documents
import TapeMachines.Proofs.CommandLine.Figures
import TapeMachines.Proofs.CommandLine.Flags
import TapeMachines.Proofs.CommandLine.Sources
import TapeMachines.Proofs.Exchange
import TapeMachines.Proofs.Files.Entries
import TapeMachines.Proofs.Files.Folders
import TapeMachines.Proofs.Files.Names
import TapeMachines.Proofs.Growth
import TapeMachines.Proofs.History
import TapeMachines.Proofs.Json.Codec
import TapeMachines.Proofs.Json.Lexer
import TapeMachines.Proofs.Json.RoundTrip
import TapeMachines.Proofs.Layout
import TapeMachines.Proofs.Post.Alphabet
import TapeMachines.Proofs.Post.Commands
import TapeMachines.Proofs.Post.Decoding
import TapeMachines.Proofs.Post.ListOrder
import TapeMachines.Proofs.Post.Lookup
import TapeMachines.Proofs.Post.Numbering
import TapeMachines.Proofs.Post.Refusals
import TapeMachines.Proofs.Post.Relisting
import TapeMachines.Proofs.Post.Words
import TapeMachines.Proofs.Reach
import TapeMachines.Proofs.RenamedPrograms
import TapeMachines.Proofs.Renaming
import TapeMachines.Proofs.Runs
import TapeMachines.Proofs.Snapshots
import TapeMachines.Proofs.StoredTape
import TapeMachines.Proofs.Sweeps
import TapeMachines.Proofs.Tape.Facing
import TapeMachines.Proofs.Tape.Map
import TapeMachines.Proofs.Tape.Past
import TapeMachines.Proofs.Tape.Renderings
import TapeMachines.Proofs.Tape.Representation
import TapeMachines.Proofs.Tape.SameCells
import TapeMachines.Proofs.Tape.Sparse
import TapeMachines.Proofs.Tape.Stretch
import TapeMachines.Proofs.Tape.Window
import TapeMachines.Proofs.Text.Bits
import TapeMachines.Proofs.Text.Layout
import TapeMachines.Proofs.Text.Lines
import TapeMachines.Proofs.Text.Numeral
import TapeMachines.Proofs.Text.Trim
import TapeMachines.Proofs.Text.Words
import TapeMachines.Proofs.Turing.Decoding
import TapeMachines.Proofs.Turing.Lookup
import TapeMachines.Proofs.Turing.Reset
import TapeMachines.Proofs.Turing.RoundTrip
import TapeMachines.Proofs.Turing.Textbook
import TapeMachines.Proofs.Visits
