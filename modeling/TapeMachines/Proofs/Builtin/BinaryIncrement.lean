import TapeMachines.Builtin
import TapeMachines.Proofs.Sweeps
import TapeMachines.Proofs.Text.Bits
/-!
# The binary increment adds one

State 0 walks to the right end of the input, state 1 turns the trailing ones to zeros on the way back and writes
a one before them, over a zero or on the blank before the input, and state 2 knows no rule. So a run is two
sweeps with one step after each. Main statement: `binary_increment_adds_one`.
-/

namespace TapeMachines.BinaryIncrement

open Text

/-- The rules in the listing. -/
def program : Turing.Program where
  rules :=
    [⟨"0", '0', "0", '0', .right⟩, ⟨"0", '1', "0", '1', .right⟩, ⟨"0", '_', "1", '_', .left⟩,
      ⟨"1", '1', "1", '0', .left⟩, ⟨"1", '0', "2", '1', .left⟩, ⟨"1", '_', "2", '1', .left⟩]
  ignored := []

theorem program_builtin : Builtin.binaryIncrement.program = .turing program := by
  show Program.turing (.ofText Builtin.binaryIncrement.listing) = _
  unfold Turing.Program.ofText Builtin.binaryIncrement
  simp only [String.toList_append]
  decide +kernel

/-! ## The rules as orders -/

abbrev unit : Automaton String := program.automaton

variable {c : Char}

theorem order_walk (h : c = '0' ∨ c = '1') : ∃ i, unit.order "0" c = .go i (some c) .right "0" := by
  rcases h with rfl | rfl <;> exact ⟨_, rfl⟩

theorem order_turn : ∃ i, unit.order "0" '_' = .go i (some '_') .left "1" := ⟨_, rfl⟩

theorem order_carry : ∃ i, unit.order "1" '1' = .go i (some '0') .left "1" := ⟨_, rfl⟩

theorem order_end (h : c = '0' ∨ c = '_') : ∃ i, unit.order "1" c = .go i (some '1') .left "2" := by
  rcases h with rfl | rfl <;> exact ⟨_, rfl⟩

theorem order_stop (c : Char) : unit.order "2" c = .stop .noMatchingRule "" := rfl

/-! ## A run -/

/-- Over the input and back from the blank behind it. -/
theorem leads_walk {input : List Char} (h : IsBits input) :
    unit.Leads (input.length + 1) ("0", Tape.ofList '_' input)
      ("1", .facingLeft '_' input.reverse ['_'] (input.length - 1)) := by
  have horders : ∀ c ∈ input, ∃ i, unit.order "0" c = .go i (some (id c)) .right "0" := fun c hc => order_walk (h c hc)
  have hthere := Automaton.leads_there horders order_turn
  rwa [List.map_id] at hthere

/-- Over the ones before the head, and one step on. -/
theorem leads_carry (ones : Nat) {left : List Char} (h : left.headD '_' = '0' ∨ left.headD '_' = '_')
    (right : List Char) (head : Int) :
    unit.Leads (ones + 1) ("1", .facingLeft '_' (List.replicate ones '1' ++ left) right head)
      ("2", .facingLeft '_' left.tail ('1' :: (List.replicate ones '0' ++ right)) (head - ones - 1)) := by
  have hones : ∀ c ∈ List.replicate ones '1', ∃ i, unit.order "1" c = .go i (some '0') .left "1" := by
    intro c hc
    rw [List.eq_of_mem_replicate hc]
    exact order_carry
  have hsweep := Automaton.leads_left (f := fun _ => '0') hones '_' left right head
  rw [List.map_replicate, List.reverse_replicate, List.length_replicate] at hsweep
  have hlast : unit.Leads 1 ("1", .facingLeft '_' left (List.replicate ones '0' ++ right) (head - ones))
      ("2", .facingLeft '_' left.tail ('1' :: (List.replicate ones '0' ++ right)) (head - ones - 1)) := by
    obtain ⟨i, hend⟩ := order_end h
    exact .step hend (.done _)
  exact hsweep.trans hlast

section Split

/-! `ones` ones stand at the end of the input, and what stands before them, nearest first, is `left`. -/

variable {input left : List Char} {ones : Nat}

theorem leads_all (hbits : IsBits input) (hinput : input = left.reverse ++ List.replicate ones '1')
    (h : left.headD '_' = '0' ∨ left.headD '_' = '_') :
    unit.Leads (input.length + ones + 2) ("0", Tape.ofList '_' input)
      ("2", .facingLeft '_' left.tail ('1' :: (List.replicate ones '0' ++ ['_'])) (left.length - 2)) := by
  have hwalk := leads_walk hbits
  have hreverse : input.reverse = List.replicate ones '1' ++ left := by simp [hinput]
  have hlength : input.length = left.length + ones := by simp [hinput]
  rw [hreverse] at hwalk
  have hall := hwalk.trans (leads_carry ones h ['_'] (input.length - 1))
  rw [show (input.length : Int) - 1 - ones - 1 = left.length - 2 by omega,
    show input.length + 1 + (ones + 1) = input.length + ones + 2 by omega] at hall
  exact hall

theorem isBits_result (hbits : IsBits input) (hinput : input = left.reverse ++ List.replicate ones '1') :
    IsBits (left.tail.reverse ++ '1' :: List.replicate ones '0') := by
  intro c hc
  simp only [List.mem_append, List.mem_reverse, List.mem_cons, List.mem_replicate] at hc
  rcases hc with hc | rfl | ⟨-, rfl⟩
  · refine hbits c ?_
    rw [hinput]
    exact List.mem_append_left _ (List.mem_reverse.2 (List.mem_of_mem_tail hc))
  · exact .inr rfl
  · exact .inl rfl

theorem run_on (hbits : IsBits input) (hinput : input = left.reverse ++ List.replicate ones '1')
    (h : left.headD '_' = '0' ∨ left.headD '_' = '_') {bound : Nat} (hbound : input.length + ones + 2 < bound) :
    let m := ((unit.on input).run bound).1
    ((unit.on input).run bound).2 = input.length + ones + 2 ∧ m.halt = some .noMatchingRule ∧
      m.status.control = "2" ∧ m.status.stepCount = input.length + ones + 2 ∧
      m.status.tape = String.ofList (left.tail.reverse ++ '1' :: List.replicate ones '0') ∧
      m.status.origin = left.length - 1 - left.tail.length := by
  intro m
  obtain ⟨hsteps, hstopped⟩ := Automaton.run_on_of_leads (leads_all hbits hinput h) (order_stop _) hbound
  have hcells : left.tail.reverse ++ ('1' :: (List.replicate ones '0' ++ ['_'])) =
      left.tail.reverse ++ '1' :: List.replicate ones '0' ++ ['_'] := by simp
  have hword : ∀ c ∈ left.tail.reverse ++ '1' :: List.replicate ones '0', c ≠ '_' := by
    rintro c hc rfl
    exact absurd (isBits_result hbits hinput _ hc) (by decide)
  obtain ⟨hcontents, horigin⟩ := Tape.shows_facingLeft hcells (by simp) (by simp) hword (left.length - 2)
  refine ⟨hsteps, hstopped.halt, ?_⟩
  rw [hstopped.status]
  exact ⟨rfl, rfl, congrArg String.ofList hcontents, horigin.trans (by omega)⟩

end Split

/-! ## Main theorem -/

theorem binaryValue_carry (before : List Char) (ones : Nat) :
    binaryValue (before ++ '1' :: List.replicate ones '0') =
      binaryValue (before ++ '0' :: List.replicate ones '1') + 1 := by
  have hzeros := binaryValue_append_zeros (before ++ ['1']) ones
  have hones := binaryValue_append_ones (before ++ ['0']) ones
  rw [binaryValue_append_singleton, List.append_assoc] at hzeros hones
  exact hzeros.trans hones.symm

theorem binaryValue_overflow (ones : Nat) :
    binaryValue ('1' :: List.replicate ones '0') = binaryValue (List.replicate ones '1') + 1 := by
  have hzeros := binaryValue_append_zeros ['1'] ones
  have hones := binaryValue_append_ones [] ones
  exact hzeros.trans hones.symm

/-- A run on the word `input` has come to its stop, on the number that follows: the machine it left, and the steps
it took. -/
structure AddsOne {κ : Type} (input : List Char) (run : Machine κ × Nat) : Prop where
  steps : run.2 = input.length + trailingOnes input + 2
  stepCount : run.1.status.stepCount = run.2
  halt : run.1.halt = some .noMatchingRule
  control : run.1.status.control = "2"
  bits : IsBits run.1.status.tape.toList
  value : binaryValue run.1.status.tape.toList = binaryValue input + 1
  within : '0' ∈ input → run.1.status.tape.length = input.length ∧ run.1.status.origin = 0
  beyond : '0' ∉ input → run.1.status.tape.length = input.length + 1 ∧ run.1.status.origin = -1

theorem addsOne_run {input : List Char} (hbits : IsBits input) {bound : Nat}
    (hbound : input.length + trailingOnes input + 2 < bound) :
    AddsOne input ((unit.on input).run bound) := by
  rcases hbits.exists_trailingOnes with ⟨hinput, hzero⟩ | ⟨before, -, hinput⟩
  · -- Nothing but ones: the carry runs off the left end.
    have hsplit : input = [].reverse ++ List.replicate (trailingOnes input) '1' := hinput
    obtain ⟨hsteps, hhalt, hcontrol, hcount, htape, horigin⟩ := run_on hbits hsplit (.inr rfl) hbound
    refine ⟨hsteps, hcount.trans hsteps.symm, hhalt, hcontrol, ?_, ?_, fun h => absurd h hzero, fun _ => ⟨?_, horigin⟩⟩
    · rw [htape, String.toList_ofList]
      exact isBits_result hbits hsplit
    · rw [htape, String.toList_ofList]
      exact (binaryValue_overflow _).trans (by rw [← hinput])
    · rw [htape, String.length_ofList]
      simpa using congrArg List.length hinput.symm
  · have hsplit : input = ('0' :: before.reverse).reverse ++ List.replicate (trailingOnes input) '1' := by
      simpa using hinput
    have hzero : '0' ∈ input := by
      rw [hinput]
      simp
    obtain ⟨hsteps, hhalt, hcontrol, hcount, htape, horigin⟩ := run_on hbits hsplit (.inl rfl) hbound
    refine ⟨hsteps, hcount.trans hsteps.symm, hhalt, hcontrol, ?_, ?_, fun _ => ⟨?_, horigin.trans (by simp)⟩,
      fun h => absurd hzero h⟩
    · rw [htape, String.toList_ofList]
      exact isBits_result hbits hsplit
    · rw [htape, String.toList_ofList, List.tail_cons, List.reverse_reverse]
      exact (binaryValue_carry before _).trans (by rw [← hinput])
    · rw [htape, String.length_ofList]
      simpa using congrArg List.length hsplit.symm

/-- On every binary number, empty or with leading zeros, with any bound that leaves room for the stop. -/
theorem binary_increment_adds_one (s : String) (hs : IsBits s.toList) (bound : Nat)
    (hbound : s.length + trailingOnes s.toList + 2 < bound) :
    ∃ m₀, Builtin.binaryIncrement.program.start s = .ok m₀ ∧ AddsOne s.toList (m₀.run bound) := by
  rw [program_builtin]
  exact ⟨_, Automaton.start_eq_ok_iff.2 ⟨fun _ _ => rfl, rfl⟩, addsOne_run hs (by rwa [String.length_toList])⟩

/-- A carry that runs off the left end. -/
theorem binary_increment_adds_one_to_three :
    IsBits "11".toList ∧ "11".length + trailingOnes "11".toList + 2 < 7 ∧
      ∃ m₀, Builtin.binaryIncrement.program.start "11" = .ok m₀ ∧ (m₀.run 7).2 = 6 ∧
        binaryValue (m₀.run 7).1.status.tape.toList = 4 ∧ (m₀.run 7).1.status.origin = -1 := by
  have hbits : IsBits "11".toList := by simp [IsBits]
  obtain ⟨m₀, hstart, h⟩ := binary_increment_adds_one "11" hbits 7 (by decide)
  exact ⟨hbits, by decide, m₀, hstart, h.steps, h.value, (h.beyond (by decide)).2⟩

end TapeMachines.BinaryIncrement
