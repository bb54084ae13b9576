import TapeMachines.History
import TapeMachines.Kind
import TapeMachines.Tape
/-!
# Machines

An `Automaton` is a control unit over a type of control points `κ`: seeing a symbol, it orders one
step or a stop. A `Machine` is such a unit on a tape, with the steps it has counted and the log it
has kept. `step` carries out one order; `run` steps up to a bound. A machine that has stopped stays
as it is until `reset`.

`step_halted` and `runFrom_halted` say that nothing moves after a halt.
-/

namespace TapeMachines

/-- What a control unit orders on seeing a symbol: to stop, or to write (`none` leaves the cell
alone), then move, then go on from `next`. -/
inductive Order (κ : Type) where
  | stop (reason : Halt) (instruction : String)
  | go (instruction : String) (write : Option Char) (move : Direction) (next : κ)

structure Automaton (κ : Type) where
  kind : Kind
  blank : Char
  /-- Where control begins. -/
  initial : κ
  order : κ → Char → Order κ
  label : κ → String
  /-- The symbols an input may hold. -/
  admits : Char → Bool
  /-- What a snapshot shows of the tape, and the position where that begins. -/
  shows : Tape → List Char × Int
  /-- The tape after a reset, from the tape before it and the last input. -/
  restart : Tape → List Char → Tape

structure Machine (κ : Type) where
  unit : Automaton κ
  control : κ
  tape : Tape
  /-- The last input. -/
  input : List Char
  halt : Option Halt
  stepCount : Nat
  log : Array LogEntry

/-- What one call of `step` did. -/
inductive Outcome where
  /-- A step to the control point with this label. -/
  | went (label : String)
  | stopped (reason : Halt)
  /-- Nothing: the machine had stopped before. -/
  | idle
  deriving DecidableEq, Repr

/-- A symbol that an input may not hold, with its index in the input. -/
structure ForeignSymbol where
  symbol : Char
  position : Nat
  deriving DecidableEq, Repr

namespace Automaton

variable {κ : Type}

/-- The first symbol of an input that the automaton does not admit. -/
def foreign? (a : Automaton κ) (input : List Char) : Option ForeignSymbol :=
  (input.zipIdx.find? fun (c, _) => !a.admits c).map fun (c, i) => ⟨c, i⟩

/-- The automaton at its start on an input it admits. -/
def on (a : Automaton κ) (input : List Char) : Machine κ where
  unit := a
  control := a.initial
  tape := Tape.ofList a.blank input
  input := input
  halt := none
  stepCount := 0
  log := #[]

/-- The automaton at its start, if it admits every symbol of the input. -/
def start (a : Automaton κ) (input : String) : Except ForeignSymbol (Machine κ) :=
  match a.foreign? input.toList with
  | some found => .error found
  | none => .ok (a.on input.toList)

end Automaton

namespace Machine

variable {κ : Type}

/-! ## Looking at a machine -/

def isHalted (m : Machine κ) : Bool := m.halt.isSome

def status (m : Machine κ) : Status :=
  let (shown, origin) := m.unit.shows m.tape
  { control := m.unit.label m.control
    head := m.tape.head
    symbol := m.tape.symbol
    halted := m.isHalted
    stepCount := m.stepCount
    tape := String.ofList shown
    origin := origin }

/-- The log entry for a step of `m` that ends at `next` with `tape`. -/
def entry (m : Machine κ) (instruction : String) (next : κ) (tape : Tape) (halt : Option Halt) : LogEntry :=
  let (shown, origin) := m.unit.shows tape
  { step := m.stepCount
    before := m.unit.label m.control
    read := m.tape.symbol
    instruction := instruction
    after := m.unit.label next
    head := tape.head
    symbol := tape.symbol
    tape := String.ofList shown
    origin := origin
    halt := halt }

/-! ## Running -/

def step (m : Machine κ) : Machine κ × Outcome :=
  if m.isHalted then (m, .idle)
  else
    match m.unit.order m.control m.tape.symbol with
    | .stop reason instruction =>
      let e := m.entry instruction m.control m.tape (some reason)
      ({ m with halt := some reason, log := m.log.push e }, .stopped reason)
    | .go instruction write move next =>
      let tape := m.tape.perform write move
      let e := m.entry instruction next tape none
      ({ m with control := next, tape := tape, stepCount := m.stepCount + 1, log := m.log.push e },
        .went (m.unit.label next))

/-- The bound on the steps of a run for which none is given. -/
def defaultMaxSteps : Nat := 10000

/-- Steps until `n` steps are taken or the machine has stopped; adds the steps taken to `done`. -/
def runFrom (done : Nat) : Nat → Machine κ → Machine κ × Nat
  | 0, m => (m, done)
  | n + 1, m =>
    match m.step with
    | (m', .went _) => runFrom (done + 1) n m'
    | (m', _) => (m', done)

/-- At most `n` steps, and how many were taken. A stop that lies ahead is not taken at the bound. -/
def run (n : Nat) (m : Machine κ) : Machine κ × Nat := runFrom 0 n m

/-! ## Starting again -/

/-- Back to the start with nothing counted or logged, on the tape the unit restarts with. -/
def reset (m : Machine κ) : Machine κ :=
  { m with control := m.unit.initial, tape := m.unit.restart m.tape m.input, halt := none,
           stepCount := 0, log := #[] }

/-- Replaces the tape alone: control, halt, count and log are kept. -/
def load (m : Machine κ) (input : String) : Except ForeignSymbol (Machine κ) :=
  match m.unit.foreign? input.toList with
  | some found => .error found
  | none => .ok { m with tape := Tape.ofList m.unit.blank input.toList, input := input.toList }

/-! ## After a halt -/

theorem step_halted {m : Machine κ} (h : m.isHalted = true) : m.step = (m, .idle) := by
  rw [step, if_pos h]

theorem runFrom_halted {m : Machine κ} (h : m.isHalted = true) (done n : Nat) :
    m.runFrom done n = (m, done) := by
  cases n with
  | zero => rfl
  | succ n => rw [runFrom, step_halted h]

end Machine

end TapeMachines
