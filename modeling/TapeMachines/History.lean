/-!
# Status and history of a machine

What an observer may see: the status now, and one log entry for every step taken and for the halt.
Control (a line number or a state) appears as text, the tape as a text and the position of its first
character.
-/

namespace TapeMachines

/-- Why a machine stopped for good. -/
inductive Halt where
  | deliberate | noMatchingRule | malformedOperands
  deriving DecidableEq, Repr

def Halt.text : Halt → String
  | .deliberate => "halt instruction"
  | .noMatchingRule => "no matching rule"
  | .malformedOperands => "malformed instruction"

/-- One step, or the halt. `before` and `read` belong to the moment before it, `after` and all that
follows to the moment after it; `step` counts the steps taken before it. -/
structure LogEntry where
  step : Nat
  before : String
  read : Char
  instruction : String
  after : String
  head : Int
  symbol : Char
  tape : String
  origin : Int
  halt : Option Halt
  deriving DecidableEq, Repr

structure Status where
  control : String
  head : Int
  symbol : Char
  halted : Bool
  stepCount : Nat
  tape : String
  origin : Int
  deriving DecidableEq, Repr

end TapeMachines
