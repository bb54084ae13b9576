import TapeMachines.Diagnostic
import TapeMachines.Text.Lines
import TapeMachines.Turing.Program
/-!
# Turing listings

A line that says something is a comment if it begins with `#`, and a rule if it has five words:
state, symbol read, next state, symbol written, direction. Every other such line is kept apart as
ignored, with its position in the listing.
-/

namespace TapeMachines.Turing

/-! ## Reading a line -/

inductive Line where
  | comment
  | rule (r : Rule)
  | ignored
  deriving DecidableEq, Repr

def Rule.ofWords? : List (List Char) → Option Rule
  | [state, [read], next, [write], direction] =>
    (Direction.ofWord? direction).map fun move =>
      ⟨String.ofList state, read, String.ofList next, write, move⟩
  | _ => none

/-- What a trimmed line is. -/
def Line.of (line : List Char) : Line :=
  if line.head? = some '#' then .comment
  else
    match Rule.ofWords? (Text.words line) with
    | some r => .rule r
    | none => .ignored

def Line.rule? : Line → Option Rule
  | .rule r => some r
  | _ => none

/-! ## Reading a listing -/

def ruleOfLine? : Nat × List Char → Option Rule
  | (_, line) => (Line.of line).rule?

def ignoredLine? : Nat × List Char → Option (Nat × String)
  | (n, line) => if Line.of line = .ignored then some (n, String.ofList line) else none

def Program.ofNumbered (ls : List (Nat × List Char)) : Program :=
  ⟨ls.filterMap ruleOfLine?, ls.filterMap ignoredLine?⟩

def Program.ofLines (ls : List String) : Program :=
  .ofNumbered (Text.numbered (ls.map String.toList))

def Program.ofText (text : String) : Program :=
  .ofNumbered (Text.numbered (Text.lines text.toList))

/-! ## Diagnostics of a listing -/

def listingDiagnostics (p : Program) : List Diagnostic :=
  p.ignored.map fun (n, line) => ⟨.warn, s!"Ignoring Turing line {n}: " ++ Text.quote line⟩

end TapeMachines.Turing
