import TapeMachines.Builtin
import TapeMachines.Json.Codec
/-!
# Reports of a run

What the command line prints: the final status and the log, as lines of text or as JSON, and the
list of the built-in programs.
-/

namespace TapeMachines.CommandLine

/-- A finished run: how many steps it took, and where it left the machine. -/
structure Report where
  executed : Nat
  halt : Option Halt
  status : Status
  log : List LogEntry
  deriving DecidableEq, Repr

def Report.ofRun {κ : Type} (m : Machine κ) (executed : Nat) : Report :=
  ⟨executed, m.halt, m.status, m.log.toList⟩

namespace Report

def toJson (r : Report) : Json :=
  .obj [("executed", .int r.executed), ("halt", .ofOption Halt.toJson r.halt),
    ("status", r.status.toJson), ("log", .arr (r.log.map LogEntry.toJson))]

/-! ## As text -/

def entryLine (e : LogEntry) : String :=
  let instruction := if e.instruction.isEmpty then "-" else e.instruction
  match e.halt with
  | some halt =>
    s!"Step: {e.step}, At: {e.before}, Read: {e.read}, Instruction: {instruction}, Halt: {halt.text}"
  | none =>
    s!"Step: {e.step}, At: {e.before} -> {e.after}, Read: {e.read}, " ++
      s!"Instruction: {instruction}, Head: {e.head}, Tape: {e.tape}"

def statusLine (s : Status) : String :=
  s!"At: {s.control}, Head: {s.head}, Symbol: {s.symbol}, Steps: {s.stepCount}, " ++
    s!"Tape starts at: {s.origin}"

def outcomeLine (r : Report) : String :=
  match r.halt with
  | some halt => s!"Machine halted: {halt.text}."
  | none => s!"Machine still running after {r.executed} steps."

def statusLines (r : Report) : List String := [statusLine r.status, r.outcomeLine, r.status.tape]

/-- The entries of the log, and the line that ends them. -/
def logLines (r : Report) : List String := r.log.map entryLine ++ [""]

end Report

/-! ## The built-in programs -/

/-- A number in two columns or more. -/
def twoColumns (n : Nat) : String := if n < 10 then s!" {n}" else toString n

def builtinLine (b : Builtin × Nat) : String :=
  s!"{twoColumns b.2}. {b.1.name} [{b.1.kind.name}] tape: {b.1.tape}"

def builtinLines : List String := Builtin.all.zipIdx.map builtinLine

end TapeMachines.CommandLine
