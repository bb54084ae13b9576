import TapeMachines.Builtin
import TapeMachines.Proofs.Sweeps
import TapeMachines.Proofs.Text.Bits
/-!
# The unary increment marks one cell

Lines 1 and 2 go over the leading ones, two steps for each; line 4 marks the cell behind them and line 3 stops
there. That cell holds a zero of the input or lies behind its end, and only then does the window grow. Main
statement: `unary_increment_marks_one_cell`.
-/

namespace TapeMachines.UnaryIncrement

open Text

/-- The instructions in the listing. -/
def program : Post.Program where
  instructions :=
    [⟨1, "? 4 2", .branch 4 2⟩, ⟨2, "→ 1", .perform .right 1⟩, ⟨3, "!", .halt⟩, ⟨4, "1 3", .perform .mark 3⟩]

theorem program_builtin : Builtin.unaryIncrement.program = .post program := by
  show Program.post (.ofText Builtin.unaryIncrement.listing) = _
  unfold Post.Program.ofText Builtin.unaryIncrement
  simp only [String.toList_append]
  decide +kernel

/-! ## The instructions as orders -/

abbrev unit : Automaton Nat := program.automaton

theorem order_pass : ∃ i, unit.order 1 '1' = .go i none .stay 2 := ⟨_, rfl⟩

theorem order_right : ∃ i, unit.order 2 '1' = .go i none .right 1 := ⟨_, rfl⟩

theorem order_found : ∃ i, unit.order 1 '0' = .go i none .stay 4 := ⟨_, rfl⟩

theorem order_mark (c : Char) : ∃ i, unit.order 4 c = .go i (some '1') .stay 3 := ⟨_, rfl⟩

theorem order_stop (c : Char) : unit.order 3 c = .stop .deliberate "!" := rfl

/-! ## A run -/

/-- The head is on a mark behind `ones` others. -/
def markedTape (ones : Nat) (right : List Char) : Tape := ⟨'0', List.replicate ones '1', '1', right, ones⟩

theorem leads_all (ones : Nat) {rest : List Char} (h : rest.headD '0' = '0') :
    unit.Leads (2 * ones + 2) (1, Tape.ofList '0' (List.replicate ones '1' ++ rest)) (3, markedTape ones rest.tail) := by
  have hpass := Automaton.leads_right_row (Automaton.leads_look_right order_pass order_right '0') ones [] rest 0
  rw [List.append_nil, Int.zero_add, Nat.mul_comm] at hpass
  have hmark : unit.Leads 2 (1, .facingRight '0' (List.replicate ones '1') rest ones) (3, markedTape ones rest.tail) := by
    obtain ⟨i, hfound⟩ := order_found
    rw [← h] at hfound
    obtain ⟨j, hmark⟩ := order_mark (rest.headD '0')
    exact .step hfound (.step hmark (.done _))
  rw [Tape.ofList_eq_facingRight]
  exact hpass.trans hmark

theorem render_markedTape (ones : Nat) (right : List Char) :
    (markedTape ones right).render = List.replicate (ones + 1) '1' ++ right := by
  simp [Tape.render, markedTape, List.replicate_succ']

theorem leftmost_markedTape (ones : Nat) (right : List Char) : (markedTape ones right).leftmost = 0 := by
  simp [Tape.leftmost, markedTape]

theorem run_on (ones : Nat) {rest : List Char} (h : rest.headD '0' = '0') {bound : Nat} (hbound : 2 * ones + 2 < bound) :
    let run := (unit.on (List.replicate ones '1' ++ rest)).run bound
    Ended run (2 * ones + 2) .deliberate "3" ∧ run.1.status.head = ones ∧ run.1.status.origin = 0 ∧
      run.1.status.tape = String.ofList (List.replicate (ones + 1) '1' ++ rest.tail) := by
  intro run
  obtain ⟨hsteps, hstopped⟩ := Automaton.run_on_of_leads (leads_all ones h) (order_stop _) hbound
  refine ⟨hstopped.ended hsteps, ?_⟩
  rw [hstopped.status]
  exact ⟨rfl, leftmost_markedTape _ _, congrArg String.ofList (render_markedTape _ _)⟩

/-! ## Main theorem -/

/-- A run on the word `input` has come to its stop on the first cell that was not marked, with a mark there. -/
structure MarksOne {κ : Type} (input : List Char) (run : Machine κ × Nat) : Prop where
  ended : Ended run (2 * leadingOnes input + 2) .deliberate "3"
  head : run.1.status.head = leadingOnes input
  origin : run.1.status.origin = 0
  beyond : input = List.replicate (leadingOnes input) '1' →
    run.1.status.tape = String.ofList (List.replicate (leadingOnes input + 1) '1')
  within : ∀ rest, input = List.replicate (leadingOnes input) '1' ++ '0' :: rest →
    run.1.status.tape = String.ofList (List.replicate (leadingOnes input + 1) '1' ++ rest)

theorem marksOne_run {input : List Char} (hbits : IsBits input) {bound : Nat}
    (hbound : 2 * leadingOnes input + 2 < bound) : MarksOne input ((unit.on input).run bound) := by
  obtain ⟨rest, hinput, hrest⟩ :
      ∃ rest, List.replicate (leadingOnes input) '1' ++ rest = input ∧ rest.headD '0' = '0' := by
    rcases hbits.exists_leadingOnes with hall | ⟨rest, hsplit⟩
    · exact ⟨[], by rw [List.append_nil, ← hall], rfl⟩
    · exact ⟨'0' :: rest, hsplit.symm, rfl⟩
  obtain ⟨hended, hhead, horigin, htape⟩ := run_on (leadingOnes input) hrest hbound
  rw [hinput] at hended hhead horigin htape
  refine ⟨hended, hhead, horigin, ?_, ?_⟩
  · intro hall
    have hnone : rest = [] := List.append_right_eq_self.1 (hinput.trans hall)
    rw [htape, hnone, List.tail_nil, List.append_nil]
  · intro rest' hsplit
    have hsame : rest = '0' :: rest' := List.append_cancel_left (hinput.trans hsplit)
    rw [htape, hsame, List.tail_cons]

/-- On every tape of a Post machine, with any bound that leaves room for the stop. -/
theorem unary_increment_marks_one_cell (w : String) (hw : IsBits w.toList) (bound : Nat)
    (hbound : 2 * leadingOnes w.toList + 2 < bound) :
    ∃ m₀, Builtin.unaryIncrement.program.start w = .ok m₀ ∧ MarksOne w.toList (m₀.run bound) := by
  rw [program_builtin]
  have hadmits : ∀ c ∈ w.toList, unit.admits c = true := fun c hc => Post.isSymbol_iff.2 (hw c hc)
  exact ⟨_, Automaton.start_eq_ok_iff.2 ⟨hadmits, rfl⟩, marksOne_run hw hbound⟩

/-- A zero between marks. -/
theorem unary_increment_marks_one_cell_between :
    IsBits "11010".toList ∧ 2 * leadingOnes "11010".toList + 2 < 7 ∧
      ∃ m₀, Builtin.unaryIncrement.program.start "11010" = .ok m₀ ∧ (m₀.run 7).2 = 6 ∧
        (m₀.run 7).1.status.head = 2 ∧ (m₀.run 7).1.status.tape = "11110" := by
  have hbits : IsBits "11010".toList := by simp [IsBits]
  obtain ⟨m₀, hstart, h⟩ := unary_increment_marks_one_cell "11010" hbits 7 (by decide)
  exact ⟨hbits, by decide, m₀, hstart, h.ended.steps, h.head, h.within ['1', '0'] rfl⟩

end TapeMachines.UnaryIncrement
