import TapeMachines.Post.Automaton
import TapeMachines.Proofs.Calls
import TapeMachines.Proofs.Cells
import TapeMachines.Proofs.Post.Lookup
/-!
# The Post machine of commands and marks

The abstract machine has a partial map from lines to commands and a tape that is a total function
from positions to marks. Main statement: `follows_commands`, by which the Post machine on any program
that repeats no line, and on any input of zeros and ones, is at every number of steps where the
abstract machine is, cell by cell, and has stopped for the same reason.
-/

namespace TapeMachines.Post

/-! ## The abstract machine -/

/-- The partial map that a list of instructions writes down; an earlier one of a line counts. -/
def commandAt : List Instruction → Nat → Option Command
  | [] => fun _ => none
  | i :: is => Function.update (commandAt is) i.line (some i.command)

structure Config where
  line : Nat
  head : Int
  /-- The marked positions. -/
  cells : Int → Bool
  /-- The steps taken; the stop is not counted. -/
  steps : Nat
  halt : Option Halt

namespace Config

/-- Line 1 at position 0, with a mark where the input has a one. -/
def start (input : List Char) : Config where
  line := 1
  head := 0
  cells p := decide (0 ≤ p ∧ input[p.toNat]? = some '1')
  steps := 0
  halt := none

/-- A step to a line, with nothing else changed. -/
def goTo (c : Config) (line : Nat) : Config := { c with line := line, steps := c.steps + 1 }

def next (code : Nat → Option Command) (c : Config) : Config :=
  if c.halt.isSome then c
  else
    match code c.line with
    | none => { c with halt := some .noMatchingRule }
    | some .halt => { c with halt := some .deliberate }
    | some .malformed => { c with halt := some .malformedOperands }
    | some (.perform .right line) => { c.goTo line with head := c.head + 1 }
    | some (.perform .left line) => { c.goTo line with head := c.head - 1 }
    | some (.perform .erase line) => { c.goTo line with cells := Function.update c.cells c.head false }
    | some (.perform .mark line) => { c.goTo line with cells := Function.update c.cells c.head true }
    | some (.branch erased marked) => c.goTo (if c.cells c.head then marked else erased)

end Config

/-! ## The map and the look-up -/

theorem commandAt_eq_some_iff {is : List Instruction} (hd : (is.map (·.line)).Nodup) {n : Nat} {c : Command} :
    commandAt is n = some c ↔ ∃ i ∈ is, i.line = n ∧ i.command = c := by
  induction is with
  | nil => simp [commandAt]
  | cons i is ih =>
    obtain ⟨hi, hd⟩ := List.nodup_cons.1 hd
    rw [commandAt, Function.update_apply]
    split
    · rename_i hn
      subst hn
      have hrest : ¬ ∃ j ∈ is, j.line = i.line ∧ j.command = c := by
        rintro ⟨j, hj, hl, -⟩
        exact hi (List.mem_map.2 ⟨j, hj, hl⟩)
      simp [hrest]
    · rename_i hn
      rw [ih hd]
      simp [Ne.symm hn]

theorem commandAt_eq {p : Program} (hp : p.DistinctLines) (n : Nat) :
    commandAt p.instructions n = (p.find? n).map (·.command) := by
  ext c
  rw [commandAt_eq_some_iff hp, Option.map_eq_some_iff]
  constructor
  · rintro ⟨i, hi, hn, hc⟩
    exact ⟨i, (Program.find?_eq_some_iff hp).2 ⟨hi, hn⟩, hc⟩
  · rintro ⟨i, hi, hc⟩
    exact ⟨i, Program.mem_of_find? hi, Program.line_of_find? hi, hc⟩

/-! ## The machine in step with it -/

/-- What a cell of the tape shows. -/
def cellSymbol (marked : Bool) : Char := if marked then '1' else '0'

/-- The machine stands where the abstract machine stands. -/
structure Matches (m : Machine Nat) (c : Config) : Prop where
  line : m.control = c.line
  head : m.tape.head = c.head
  cells : ∀ p, m.tape.get p = cellSymbol (c.cells p)
  halt : m.halt = c.halt
  steps : m.stepCount = c.steps

theorem matches_start (p : Program) {input : List Char} (hi : ∀ c ∈ input, c = '0' ∨ c = '1') :
    Matches (p.automaton.on input) (Config.start input) where
  line := rfl
  head := Tape.head_ofList blank input
  cells q := by
    refine (Tape.get_ofList blank input q).trans ?_
    by_cases hq : 0 ≤ q
    · cases he : input[q.toNat]? with
      | none => simp [Config.start, cellSymbol, he, hq, blank]
      | some c =>
        rcases hi c (List.mem_of_getElem? he) with rfl | rfl <;>
          simp [Config.start, cellSymbol, he, hq]
    · simp [Config.start, cellSymbol, hq, blank]
  halt := rfl
  steps := rfl

theorem Matches.symbol {m : Machine Nat} {c : Config} (h : Matches m c) :
    m.tape.symbol = cellSymbol (c.cells c.head) := by
  rw [← h.head, ← h.cells, Tape.get_head]

/-- A step that writes nothing. -/
theorem Matches.goOn_none {m : Machine Nat} {c : Config} (h : Matches m c) (text : String) (move : Direction)
    (line : Nat) : Matches (m.goOn text none move line) { c.goTo line with head := c.head + move.offset } where
  line := rfl
  head := (Tape.head_perform m.tape none move).trans (by rw [h.head])
  cells q := (congrFun (Tape.get_perform_none m.tape move) q).trans (h.cells q)
  halt := h.halt
  steps := congrArg (· + 1) h.steps

/-- A step that writes and stays. -/
theorem Matches.goOn_some {m : Machine Nat} {c : Config} (h : Matches m c) (text : String) (marked : Bool)
    (line : Nat) :
    Matches (m.goOn text (some (cellSymbol marked)) .stay line)
      { c.goTo line with cells := Function.update c.cells c.head marked } where
  line := rfl
  head := h.head
  cells q := by
    refine (congrFun (Tape.get_perform_some m.tape (cellSymbol marked) .stay) q).trans ?_
    simp only [Function.update_apply, h.head]
    split
    · rfl
    · exact h.cells q
  halt := h.halt
  steps := congrArg (· + 1) h.steps

/-- One step of each keeps them together. -/
theorem Matches.next {p : Program} (hp : p.DistinctLines) {m : Machine Nat} {c : Config} (h : Matches m c)
    (hu : m.unit = p.automaton) : Matches m.next (c.next (commandAt p.instructions)) := by
  by_cases hc : c.halt.isSome = true
  · have hm : m.isHalted = true := by rw [Machine.isHalted, h.halt, hc]
    rw [Machine.next_of_halted hm, Config.next, if_pos hc]
    exact h
  · have hn : c.halt = none := by simpa using hc
    have hm : m.halt = none := h.halt.trans hn
    have ho : m.unit.order m.control m.tape.symbol = p.order c.line (cellSymbol (c.cells c.head)) := by
      rw [hu, h.line, h.symbol]; rfl
    rw [Config.next, if_neg hc, commandAt_eq hp]
    cases hf : p.find? c.line with
    | none =>
      rw [Program.order, hf] at ho
      rw [Machine.next_of_stop hm ho]
      exact { h with halt := rfl }
    | some i =>
      rw [Program.order, hf] at ho
      rw [Option.map_some]
      cases hi : i.command with
      | halt =>
        simp only [Instruction.order, hi] at ho
        rw [Machine.next_of_stop hm ho]
        exact { h with halt := rfl }
      | malformed =>
        simp only [Instruction.order, hi] at ho
        rw [Machine.next_of_stop hm ho]
        exact { h with halt := rfl }
      | perform act line =>
        simp only [Instruction.order, hi] at ho
        rw [Machine.next_of_go hm ho]
        cases act with
        | right => exact h.goOn_none i.text .right line
        | left => exact h.goOn_none i.text .left line
        | erase => exact h.goOn_some i.text false line
        | mark => exact h.goOn_some i.text true line
      | branch erased marked =>
        -- A cell reads as blank exactly if it is not marked.
        have hb : (if cellSymbol (c.cells c.head) = blank then erased else marked) =
            if c.cells c.head then marked else erased := by
          cases c.cells c.head <;> rfl
        simp only [Instruction.order, hi, hb] at ho
        rw [Machine.next_of_go hm ho]
        simpa [Direction.offset, Config.goTo] using h.goOn_none i.text .stay _

theorem Matches.iterate {p : Program} (hp : p.DistinctLines) {m : Machine Nat} {c : Config} (h : Matches m c)
    (hu : m.unit = p.automaton) (n : Nat) :
    Matches (Machine.next^[n] m) ((Config.next (commandAt p.instructions))^[n] c) := by
  induction n generalizing m c with
  | zero => exact h
  | succ n ih => exact ih (h.next hp hu) (m.unit_next.trans hu)

/-! ## Main theorem -/

/-- Programs read from a listing repeat no line. Every program that repeats none starts on every
input of zeros and ones, and after any number of steps its machine stands where the abstract machine
stands: same line, head, cells, reason of the stop and count. -/
theorem follows_commands :
    (∀ text, (Program.ofText text).DistinctLines) ∧ (∀ ls, (Program.ofLines ls).DistinctLines) ∧
      ∀ (p : Program) (input : String), p.DistinctLines → (∀ c ∈ input.toList, c = '0' ∨ c = '1') →
        ∃ m, p.automaton.start input = .ok m ∧
          ∀ n, Matches (Machine.next^[n] m)
            ((Config.next (commandAt p.instructions))^[n] (Config.start input.toList)) := by
  refine ⟨Program.distinctLines_ofText, Program.distinctLines_ofLines, fun p input hp hi => ?_⟩
  have hs : p.automaton.start input = .ok (p.automaton.on input.toList) := by
    refine Automaton.start_eq_ok_iff.2 ⟨fun c hc => ?_, rfl⟩
    rcases hi c hc with rfl | rfl <;> rfl
  exact ⟨_, hs, fun n => (matches_start p hi).iterate hp rfl n⟩

/-- Two lines out of order, between them a gap, and a jump to line 0, which is missing. -/
def outOfOrder : Program := ⟨[⟨7, "? 0 1", .branch 0 1⟩, ⟨1, "→ 7", .perform .right 7⟩]⟩

theorem follows_commands_out_of_order :
    outOfOrder.DistinctLines ∧ (∀ c ∈ "110".toList, c = '0' ∨ c = '1') ∧
      ∃ m, outOfOrder.automaton.start "110" = .ok m ∧
        ∀ n, Matches (Machine.next^[n] m)
          ((Config.next (commandAt outOfOrder.instructions))^[n] (Config.start "110".toList)) :=
  have hp : outOfOrder.DistinctLines := by decide
  have hi : ∀ c ∈ "110".toList, c = '0' ∨ c = '1' := by simp
  ⟨hp, hi, follows_commands.2.2 outOfOrder "110" hp hi⟩

end TapeMachines.Post
