import TapeMachines.Diagnostic
import TapeMachines.Post.Program
import TapeMachines.Text.Lines
import TapeMachines.Text.Numeral
/-!
# Post listings

Every line that says something is an instruction, numbered by its position in the listing. A label,
digits and a point at the start of a line, is for the reader alone. The first word names the command
and the others are its targets; a line that is not written so is a malformed instruction.
-/

namespace TapeMachines.Post

/-! ## Reading a line -/

/-- A line without its label, if it has one. -/
def dropLabel (line : List Char) : List Char :=
  match line.takeWhile Char.isDigit, line.dropWhile Char.isDigit with
  | _ :: _, '.' :: rest => rest
  | _, _ => line

def Act.ofWord? : List Char → Option Act
  | ['→'] | ['-', '>'] | ['>'] => some .right
  | ['←'] | ['<', '-'] | ['<'] => some .left
  | ['1'] | ['V'] => some .mark
  | ['0'] | ['X'] => some .erase
  | _ => none

/-- The command of an opcode and its targets. -/
def Command.ofTargets (opcode : List Char) (targets : List Nat) : Command :=
  match opcode, targets with
  | ['?'], [erased, marked] => .branch erased marked
  | ['!'], [] => .halt
  | opcode, [next] =>
    match Act.ofWord? opcode with
    | some act => .perform act next
    | none => .malformed
  | _, _ => .malformed

def Command.ofWords : List (List Char) → Command
  | [] => .malformed
  | opcode :: operands =>
    match operands.mapM Text.natural? with
    | some targets => .ofTargets opcode targets
    | none => .malformed

/-- The instruction a trimmed line stands for, as line `n`. -/
def Instruction.ofLine (n : Nat) (line : List Char) : Instruction :=
  let words := Text.words (dropLabel line)
  { line := n
    text := String.ofList ([' '].intercalate words)
    command := .ofWords words }

/-! ## Reading a listing -/

def Program.ofLines (ls : List String) : Program :=
  ⟨(Text.numbered (ls.map String.toList)).map fun (n, line) => .ofLine n line⟩

def Program.ofText (text : String) : Program :=
  ⟨(Text.numbered (Text.lines text.toList)).map fun (n, line) => .ofLine n line⟩

/-! ## Diagnostics of a listing -/

def Act.name : Act → String
  | .right => "MoveRight"
  | .left => "MoveLeft"
  | .erase => "Write0"
  | .mark => "Write1"

def Command.description : Command → String
  | .perform act next => s!"{act.name}({next})"
  | .branch erased marked => s!"Branch({erased}, {marked})"
  | .halt => "Halt"
  | .malformed => "Malformed"

def lineDiagnostic (n : Nat) (line : List Char) : Diagnostic :=
  match (Instruction.ofLine n line).command with
  | .malformed => ⟨.warn, s!"Post line {n} does not decode: " ++ Text.quote (String.ofList line)⟩
  | command => ⟨.trace, s!"Post line {n}: {command.description}"⟩

def listingDiagnostics (ls : List (List Char)) : List Diagnostic :=
  (Text.numbered ls).map fun (n, line) => lineDiagnostic n line

end TapeMachines.Post
