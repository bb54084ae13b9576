import TapeMachines.Diagnostic
/-!
# Problems in a program

What the analysis of a listing may report. A problem never keeps a program from running: it points
at lines or rules that stop the machine, or that are never used.
-/

namespace TapeMachines.Analysis

inductive Problem where
  | undefinedTarget (line target : Nat)
  | malformedInstruction (line : Nat) (text : String)
  | unreachableLines (lines : List Nat)
  | missingHalt
  | ignoredLine (line : Nat) (text : String)
  /-- An earlier rule has the same state and symbol. Rules are counted from 1. -/
  | shadowedRule (rule : Nat) (state : String) (symbol : Char)
  | invalidStartState (state : String)
  | unreachableStates (states : List String)
  deriving DecidableEq, Repr

namespace Problem

def message : Problem → String
  | undefinedTarget line target => s!"Line {line} jumps to missing line {target}"
  | malformedInstruction line text => s!"Line {line} is malformed: " ++ Text.quote text
  | unreachableLines lines => "Unreachable lines: " ++ Text.bracketed (lines.map toString)
  | missingHalt => "No halt instruction"
  | ignoredLine line text => s!"Line {line} is not a rule and was ignored: " ++ Text.quote text
  | shadowedRule rule state symbol =>
    s!"Rule {rule} is shadowed by an earlier rule for state {state} and symbol " ++ Text.quoteChar symbol
  | invalidStartState state => s!"No rule for initial state {state}"
  | unreachableStates states => "Unreachable states detected: " ++ Text.bracketed (states.map Text.quote)

def diagnostic (p : Problem) : Diagnostic := ⟨.debug, "Analysis: " ++ p.message⟩

end Problem

end TapeMachines.Analysis
