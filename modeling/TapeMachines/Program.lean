import TapeMachines.Analysis.Post
import TapeMachines.Analysis.Turing
import TapeMachines.Post.Automaton
import TapeMachines.Post.Listing
import TapeMachines.Turing.Automaton
import TapeMachines.Turing.Listing
/-!
# Programs of either kind

A program knows its automaton, so that one function starts and runs every program. `Control` is the
type of its control points: line numbers for a Post program, states for a Turing program.
-/

namespace TapeMachines

inductive Program where
  | post (program : Post.Program)
  | turing (program : Turing.Program)
  deriving DecidableEq, Repr

namespace Program

def kind : Program → Kind
  | post _ => .post
  | turing _ => .turing

/-- How many instructions or rules there are. -/
def size : Program → Nat
  | post p => p.instructions.length
  | turing p => p.rules.length

abbrev Control : Program → Type
  | post _ => Nat
  | turing _ => String

def automaton : (p : Program) → Automaton p.Control
  | post p => p.automaton
  | turing p => p.automaton

def start (p : Program) (input : String) : Except ForeignSymbol (Machine p.Control) :=
  p.automaton.start input

def problems : Program → List Analysis.Problem
  | post p => p.problems
  | turing p => p.problems

/-! ## Reading a program -/

def ofLines (kind : Kind) (ls : List String) : Program :=
  match kind with
  | .post => .post (.ofLines ls)
  | .turing => .turing (.ofLines ls)

def ofText (kind : Kind) (text : String) : Program :=
  match kind with
  | .post => .post (.ofText text)
  | .turing => .turing (.ofText text)

/-- What reading a listing tells beside the program. -/
def linesDiagnostics (kind : Kind) (ls : List (List Char)) : List Diagnostic :=
  match kind with
  | .post => Post.listingDiagnostics ls
  | .turing => Turing.listingDiagnostics (.ofNumbered (Text.numbered ls))

def textDiagnostics (kind : Kind) (text : String) : List Diagnostic :=
  linesDiagnostics kind (Text.lines text.toList)

end Program

end TapeMachines
