import TapeMachines.Machine
import TapeMachines.Turing.Program
/-!
# The Turing machine

One rule is one step, and the machine stops when no rule applies. A snapshot shows the tape from its
first to its last cell that is not blank, and a reset brings the last input back.
-/

namespace TapeMachines.Turing

def Program.order (p : Program) (state : String) (read : Char) : Order String :=
  match p.find? state read with
  | some r => .go r.text (some r.write) r.move r.next
  | none => .stop .noMatchingRule ""

def Program.automaton (p : Program) : Automaton String where
  kind := .turing
  blank := blank
  initial := startState
  order := p.order
  label := id
  admits _ := true
  shows t := (t.contents, t.contentsOrigin)
  restart _ input := Tape.ofList blank input

end TapeMachines.Turing
