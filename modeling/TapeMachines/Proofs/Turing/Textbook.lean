import TapeMachines.Proofs.Calls
import TapeMachines.Proofs.Cells
import TapeMachines.Turing.Automaton
/-!
# The textbook Turing machine

The machine of the textbooks has a tape that is a total function from positions to symbols and
follows a table of rules. Main statement: `follows_textbook`, by which the Turing machine on any
program and input is at every number of steps where the textbook machine is, cell by cell.
-/

namespace TapeMachines.Turing

/-! ## The textbook machine -/

structure Config where
  state : String
  head : Int
  cells : Int → Char
  /-- The steps taken; the stop is not counted. -/
  steps : Nat
  halted : Bool

namespace Config

/-- State `0` at position 0, on a tape that is blank (`_`) outside the input. -/
def start (input : List Char) : Config where
  state := "0"
  head := 0
  cells p := if 0 ≤ p then input[p.toNat]?.getD '_' else '_'
  steps := 0
  halted := false

/-- The rules for the present state and symbol, in the order of the table. -/
def applicable (rules : List Rule) (c : Config) : List Rule :=
  rules.filter fun r => r.state = c.state ∧ r.read = c.cells c.head

/-- The first applicable rule writes, moves the head and gives the next state. Without one the
machine stops for good. -/
def next (rules : List Rule) (c : Config) : Config :=
  if c.halted then c
  else
    match c.applicable rules with
    | [] => { c with halted := true }
    | r :: _ =>
      { c with state := r.next
               head := c.head + r.move.offset
               cells := Function.update c.cells c.head r.write
               steps := c.steps + 1 }

theorem head?_applicable (p : Program) (c : Config) :
    (c.applicable p.rules).head? = p.find? c.state (c.cells c.head) := by
  simp only [applicable, Program.find?, List.head?_filter, Bool.decide_and]

end Config

/-! ## The machine in step with it -/

/-- The machine stands where the textbook machine stands; a stop is for want of a rule. -/
structure Matches (m : Machine String) (c : Config) : Prop where
  state : m.control = c.state
  head : m.tape.head = c.head
  cells : ∀ p, m.tape.get p = c.cells p
  halt : m.halt = if c.halted then some .noMatchingRule else none
  steps : m.stepCount = c.steps

theorem matches_start (p : Program) (input : List Char) :
    Matches (p.automaton.on input) (Config.start input) where
  state := rfl
  head := Tape.head_ofList blank input
  cells := Tape.get_ofList blank input
  halt := rfl
  steps := rfl

theorem Matches.symbol {m : Machine String} {c : Config} (h : Matches m c) :
    m.tape.symbol = c.cells c.head := by
  rw [← h.head, ← h.cells, Tape.get_head]

/-- One step of each keeps them together. -/
theorem Matches.next {p : Program} {m : Machine String} {c : Config} (h : Matches m c)
    (hu : m.unit = p.automaton) : Matches m.next (c.next p.rules) := by
  by_cases hc : c.halted = true
  · have hm : m.isHalted = true := by simp [Machine.isHalted, h.halt, hc]
    rw [Machine.next_of_halted hm, Config.next, if_pos hc]
    exact h
  · have hm : m.halt = none := by simp [h.halt, hc]
    have ho : m.unit.order m.control m.tape.symbol = p.order c.state (c.cells c.head) := by
      rw [hu, h.state, h.symbol]; rfl
    -- The first applicable rule is the one the program finds.
    have hf := c.head?_applicable p
    rw [Config.next, if_neg hc]
    cases ha : c.applicable p.rules with
    | nil =>
      rw [ha, List.head?_nil] at hf
      rw [Program.order, ← hf] at ho
      rw [Machine.next_of_stop hm ho]
      exact { h with halt := rfl }
    | cons r rs =>
      rw [ha, List.head?_cons] at hf
      rw [Program.order, ← hf] at ho
      rw [Machine.next_of_go hm ho]
      refine ⟨rfl, ?_, fun q => ?_, by simp [Machine.goOn, hm, hc], congrArg (· + 1) h.steps⟩
      · exact (Tape.head_perform m.tape (some r.write) r.move).trans (by rw [h.head])
      · exact (congrFun (Tape.get_perform_some m.tape r.write r.move) q).trans
          (by rw [h.head, funext h.cells])

theorem Matches.iterate {p : Program} {m : Machine String} {c : Config} (h : Matches m c)
    (hu : m.unit = p.automaton) (n : Nat) :
    Matches (Machine.next^[n] m) ((Config.next p.rules)^[n] c) := by
  induction n generalizing m c with
  | zero => exact h
  | succ n ih => exact ih (h.next hu) (m.unit_next.trans hu)

/-! ## Main theorem -/

/-- Every program starts on every input, and after any number of steps its machine stands where the
textbook machine stands: same state, head, cells and count, and stopped exactly if it has stopped. -/
theorem follows_textbook (p : Program) (input : String) :
    ∃ m, p.automaton.start input = .ok m ∧
      ∀ n, Matches (Machine.next^[n] m) ((Config.next p.rules)^[n] (Config.start input.toList)) :=
  ⟨p.automaton.on input.toList, Automaton.start_eq_ok_iff.2 ⟨fun _ _ => rfl, rfl⟩,
    fun n => (matches_start p input.toList).iterate rfl n⟩

end TapeMachines.Turing
