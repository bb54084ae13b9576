import TapeMachines.Machine
import TapeMachines.Post.Program
/-!
# The Post machine

One command is one step. A snapshot shows the whole visited window, and a reset walks the head back
to position 0 over the cells as they are.
-/

namespace TapeMachines.Post

def Act.write? : Act → Option Char
  | .erase => some blank
  | .mark => some Post.mark
  | .right | .left => none

def Act.move : Act → Direction
  | .right => .right
  | .left => .left
  | .erase | .mark => .stay

def Instruction.order (i : Instruction) (read : Char) : Order Nat :=
  match i.command with
  | .perform a next => .go i.text a.write? a.move next
  | .branch erased marked => .go i.text none .stay (if read = blank then erased else marked)
  | .halt => .stop .deliberate i.text
  | .malformed => .stop .malformedOperands i.text

def Program.order (p : Program) (line : Nat) (read : Char) : Order Nat :=
  match p.find? line with
  | some i => i.order read
  | none => .stop .noMatchingRule ""

/-- A stop is for want of the line, or is what the line's command asks for. -/
theorem Program.order_eq_stop {p : Program} {line : Nat} {read : Char} {reason : Halt} {text : String}
    (h : p.order line read = .stop reason text) :
    p.find? line = none ∧ reason = .noMatchingRule ∨
      ∃ i, p.find? line = some i ∧ text = i.text ∧
        (i.command = .halt ∧ reason = .deliberate ∨ i.command = .malformed ∧ reason = .malformedOperands) := by
  unfold order at h
  split at h
  · rename_i i hi
    refine .inr ⟨i, hi, ?_⟩
    cases hc : i.command with
    | perform => simp [Instruction.order, hc] at h
    | branch => simp [Instruction.order, hc] at h
    | halt =>
      simp only [Instruction.order, hc, Order.stop.injEq] at h
      exact ⟨h.2.symm, .inl ⟨rfl, h.1.symm⟩⟩
    | malformed =>
      simp only [Instruction.order, hc, Order.stop.injEq] at h
      exact ⟨h.2.symm, .inr ⟨rfl, h.1.symm⟩⟩
  · simp only [Order.stop.injEq] at h
    exact .inl ⟨‹_›, h.1.symm⟩

/-- A step is an act of the line, which goes on to its target, or a branch on the symbol, which writes nothing and
stays. -/
theorem Program.order_go_cases {p : Program} {line next : Nat} {read : Char} {text : String}
    {write : Option Char} {move : Direction} (h : p.order line read = .go text write move next) :
    ∃ i, p.find? line = some i ∧ text = i.text ∧
      ((∃ act, i.command = .perform act next ∧ write = act.write? ∧ move = act.move) ∨
        ∃ erased marked, i.command = .branch erased marked ∧ write = none ∧ move = .stay ∧
          next = if read = blank then erased else marked) := by
  unfold order at h
  split at h
  · rename_i i hi
    refine ⟨i, hi, ?_⟩
    cases hc : i.command with
    | perform act target =>
      simp only [Instruction.order, hc, Order.go.injEq] at h
      obtain ⟨rfl, rfl, rfl, rfl⟩ := h
      exact ⟨rfl, .inl ⟨act, rfl, rfl, rfl⟩⟩
    | branch erased marked =>
      simp only [Instruction.order, hc, Order.go.injEq] at h
      obtain ⟨rfl, rfl, rfl, rfl⟩ := h
      exact ⟨rfl, .inr ⟨erased, marked, rfl, rfl, rfl, rfl⟩⟩
    | halt => simp [Instruction.order, hc] at h
    | malformed => simp [Instruction.order, hc] at h
  · cases h

/-- A step leads to a target of the line. -/
theorem Program.order_eq_go {p : Program} {line next : Nat} {read : Char} {text : String}
    {write : Option Char} {move : Direction} (h : p.order line read = .go text write move next) :
    ∃ i, p.find? line = some i ∧ text = i.text ∧ next ∈ i.command.targets := by
  obtain ⟨i, hi, ht, ⟨act, hc, -, -⟩ | ⟨erased, marked, hc, -, -, rfl⟩⟩ := order_go_cases h
  · exact ⟨i, hi, ht, by simp [hc, Command.targets]⟩
  · refine ⟨i, hi, ht, ?_⟩
    rw [hc]
    split <;> simp [Command.targets]

def isSymbol (c : Char) : Bool := c = blank || c = mark

theorem isSymbol_iff {c : Char} : isSymbol c = true ↔ c = '0' ∨ c = '1' := by
  rw [isSymbol, Bool.or_eq_true, decide_eq_true_eq, decide_eq_true_eq]
  exact Iff.rfl

def Program.automaton (p : Program) : Automaton Nat where
  kind := .post
  blank := blank
  initial := firstLine
  order := p.order
  label := toString
  admits := isSymbol
  shows t := (t.render, t.leftmost)
  restart t _ := t.rewind

end TapeMachines.Post
