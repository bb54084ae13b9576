/-!
# Head movements

A direction has one letter of its own (`L`, `R`, `S`) and further spellings in rule listings.
-/

namespace TapeMachines

inductive Direction where
  | left | right | stay
  deriving DecidableEq, Repr

namespace Direction

def ofWord? : List Char → Option Direction
  | ['<'] | ['L'] => some .left
  | ['>'] | ['R'] => some .right
  | ['-'] | ['S'] | ['N'] => some .stay
  | _ => none

def letter : Direction → Char
  | .left => 'L'
  | .right => 'R'
  | .stay => 'S'

@[simp] theorem ofWord?_letter (d : Direction) : ofWord? [d.letter] = some d := by cases d <;> rfl

end Direction

end TapeMachines
