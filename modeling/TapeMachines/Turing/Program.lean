import TapeMachines.Direction
/-!
# Programs of a Turing machine

A program is a list of rules. The machine begins in state `0` on a tape blank but for its input, and
always follows the first rule for its state and the symbol it sees.
-/

namespace TapeMachines.Turing

def blank : Char := '_'

def startState : String := "0"

structure Rule where
  state : String
  read : Char
  next : String
  write : Char
  move : Direction
  deriving DecidableEq, Repr

/-- The rule as a line of a listing, with the letter of its direction. -/
def Rule.text (r : Rule) : String :=
  r.state ++ " " ++ r.read.toString ++ " " ++ r.next ++ " " ++ r.write.toString ++ " " ++
    r.move.letter.toString

structure Program where
  rules : List Rule
  /-- The lines of the listing that are no rule, with their positions. -/
  ignored : List (Nat × String)
  deriving DecidableEq, Repr

def Program.find? (p : Program) (state : String) (read : Char) : Option Rule :=
  p.rules.find? fun r => r.state = state && r.read = read

end TapeMachines.Turing
