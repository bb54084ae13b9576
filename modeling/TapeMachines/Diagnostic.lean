import TapeMachines.Machine
import TapeMachines.Text.Quoted
/-!
# Diagnostics

What an observer of a session is told beside the answers. Diagnostics are read off the results: the
entries a run has added to the log, the lines of a listing, the problems an analysis has found.
-/

namespace TapeMachines

inductive Level where
  | trace | debug | info | warn
  deriving DecidableEq, Repr

def Level.name : Level → String
  | .trace => "TRACE"
  | .debug => "DEBUG"
  | .info => "INFO"
  | .warn => "WARN"

structure Diagnostic where
  level : Level
  message : String
  deriving DecidableEq, Repr

/-! ## Steps -/

def LogEntry.stepMessage (kind : Kind) (e : LogEntry) : String :=
  match kind with
  | .post =>
    s!"Post step {e.step}: line {e.before} [{e.instruction}] -> line {e.after}, head {e.head}"
  | .turing => s!"Turing step {e.step}: [{e.instruction}] head {e.head}"

def LogEntry.haltMessage (kind : Kind) (e : LogEntry) (reason : Halt) : String :=
  match kind with
  | .post => s!"Post machine halted at line {e.before} after {e.step} steps: {reason.text}"
  | .turing =>
    s!"Turing machine halted in state {e.before} after {e.step} steps: no rule for " ++
      Text.quoteChar e.read

def LogEntry.diagnostic (kind : Kind) (e : LogEntry) : Diagnostic :=
  match e.halt with
  | none => ⟨.debug, e.stepMessage kind⟩
  | some reason => ⟨.info, e.haltMessage kind reason⟩

namespace Machine

variable {κ : Type}

/-- The diagnostics of the entries that `later` has logged beyond those of `m`. -/
def diagnosticsUntil (m later : Machine κ) : List Diagnostic :=
  (later.log.toList.drop m.log.size).map (LogEntry.diagnostic m.unit.kind)

/-- The diagnostics of `m.run n`, which ended at `later`. -/
def runDiagnostics (n : Nat) (m later : Machine κ) : List Diagnostic :=
  m.diagnosticsUntil later ++
    if later.isHalted then [] else [⟨.debug, s!"Step ceiling of {n} reached without halting"⟩]

end Machine

end TapeMachines
