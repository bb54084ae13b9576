import TapeMachines.Builtin
import TapeMachines.Proofs.Sweeps
import TapeMachines.Proofs.Text.Bits
/-!
# Inverting a word

State 0 puts the other bit in each cell on its way to the right end, state 1 goes back to the blank before the
word, and one cell to the right of that state 2 knows no rule. So a run is two sweeps with one step after each,
and leaves the head where it began. Main statement: `invert_flips_every_bit`.
-/

namespace TapeMachines.Invert

open Text

/-- The rules in the listing. -/
def program : Turing.Program where
  rules :=
    [⟨"0", '0', "0", '1', .right⟩, ⟨"0", '1', "0", '0', .right⟩, ⟨"0", '_', "1", '_', .left⟩,
      ⟨"1", '0', "1", '0', .left⟩, ⟨"1", '1', "1", '1', .left⟩, ⟨"1", '_', "2", '_', .right⟩]
  ignored := []

theorem program_builtin : Builtin.invert.program = .turing program := by
  show Program.turing (.ofText Builtin.invert.listing) = _
  unfold Turing.Program.ofText Builtin.invert
  simp only [String.toList_append]
  decide +kernel

/-! ## The rules as orders -/

abbrev unit : Automaton String := program.automaton

variable {c : Char}

theorem order_flip (h : c = '0' ∨ c = '1') : ∃ i, unit.order "0" c = .go i (some (otherBit c)) .right "0" := by
  rcases h with rfl | rfl <;> exact ⟨_, rfl⟩

theorem order_turn : ∃ i, unit.order "0" '_' = .go i (some '_') .left "1" := ⟨_, rfl⟩

theorem order_back (h : c = '0' ∨ c = '1') : ∃ i, unit.order "1" c = .go i (some c) .left "1" := by
  rcases h with rfl | rfl <;> exact ⟨_, rfl⟩

theorem order_end : ∃ i, unit.order "1" '_' = .go i (some '_') .right "2" := ⟨_, rfl⟩

theorem order_stop (c : Char) : unit.order "2" c = .stop .noMatchingRule "" := rfl

/-! ## A run -/

/-- Over a word to the left, and one step back from the blank before it. -/
theorem leads_back {word : List Char} (h : IsBits word) :
    unit.Leads (word.length + 1) ("1", .facingLeft '_' word.reverse ['_'] (word.length - 1))
      ("2", .facingRight '_' ['_'] (word ++ ['_']) 0) := by
  have horders : ∀ c ∈ word.reverse, ∃ i, unit.order "1" c = .go i (some (id c)) .left "1" :=
    fun c hc => order_back (h c (List.mem_reverse.1 hc))
  have hsweep := Automaton.leads_left horders '_' [] ['_'] (word.length - 1)
  rw [List.append_nil, List.map_id, List.reverse_reverse, List.length_reverse,
    show (word.length : Int) - 1 - word.length = -1 by omega] at hsweep
  have hend : unit.Leads 1 ("1", .facingLeft '_' [] (word ++ ['_']) (-1))
      ("2", .facingRight '_' ['_'] (word ++ ['_']) 0) := by
    obtain ⟨i, ho⟩ := order_end
    exact .step ho (.done _)
  exact hsweep.trans hend

theorem leads_all {input : List Char} (h : IsBits input) :
    unit.Leads (2 * input.length + 2) ("0", Tape.ofList '_' input)
      ("2", .facingRight '_' ['_'] (complement input ++ ['_']) 0) := by
  have hthere : unit.Leads (input.length + 1) ("0", Tape.ofList '_' input)
      ("1", .facingLeft '_' (complement input).reverse ['_'] (input.length - 1)) :=
    Automaton.leads_there (fun c hc => order_flip (h c hc)) order_turn
  have hback := leads_back (isBits_complement input)
  rw [length_complement] at hback
  have hall := hthere.trans hback
  rwa [show input.length + 1 + (input.length + 1) = 2 * input.length + 2 by omega] at hall

/-- A word with one visited blank on each side, the empty word included. -/
theorem shows_between_blanks {word : List Char} (h : IsBits word) :
    (Tape.facingRight '_' ['_'] (word ++ ['_']) 0).contents = word ∧
      (Tape.facingRight '_' ['_'] (word ++ ['_']) 0).contentsOrigin = 0 := by
  by_cases hne : word = []
  · rw [hne]
    exact ⟨rfl, rfl⟩
  · have hrender : (Tape.facingRight '_' ['_'] (word ++ ['_']) 0).render = ['_'] ++ word ++ ['_'] := by
      rw [Tape.render_facingRight (by simp)]
      simp
    have hword : ∀ c ∈ word, c ≠ '_' := by
      rintro c hc rfl
      exact absurd (h _ hc) (by decide)
    exact Tape.shows_word hrender (by simp [Tape.facingRight]) (by simp [Tape.facingRight]) hne hword

/-! ## Main theorem -/

/-- A run on the word `input` has come to its stop with the head at the beginning of the complement. -/
structure Inverts {κ : Type} (input : List Char) (run : Machine κ × Nat) : Prop where
  ended : Ended run (2 * input.length + 2) .noMatchingRule "2"
  head : run.1.status.head = 0
  tape : run.1.status.tape = String.ofList (complement input)
  origin : run.1.status.origin = 0

theorem inverts_run {input : List Char} (h : IsBits input) {bound : Nat} (hbound : 2 * input.length + 2 < bound) :
    Inverts input ((unit.on input).run bound) := by
  obtain ⟨hsteps, hstopped⟩ := Automaton.run_on_of_leads (leads_all h) (order_stop _) hbound
  obtain ⟨hcontents, horigin⟩ := shows_between_blanks (isBits_complement input)
  refine ⟨hstopped.ended hsteps, ?_, ?_, ?_⟩
  · rw [hstopped.status]
    rfl
  · rw [hstopped.status]
    exact congrArg String.ofList hcontents
  · rw [hstopped.status]
    exact horigin

theorem exists_inverts (s : String) (hs : IsBits s.toList) :
    ∃ m₀, Builtin.invert.program.start s = .ok m₀ ∧
      ∀ bound, 2 * s.length + 2 < bound → Inverts s.toList (m₀.run bound) := by
  rw [program_builtin]
  refine ⟨_, Automaton.start_eq_ok_iff.2 ⟨fun _ _ => rfl, rfl⟩, ?_⟩
  intro bound hbound
  exact inverts_run hs (by rwa [String.length_toList])

/-- On every word of bits, the empty one included, with any bound that leaves room for the stop; and what a run
leaves is itself a word on which a run leaves the first one again. -/
theorem invert_flips_every_bit (s : String) (hs : IsBits s.toList) (bound : Nat) (hbound : 2 * s.length + 2 < bound) :
    ∃ m₀, Builtin.invert.program.start s = .ok m₀ ∧ Inverts s.toList (m₀.run bound) ∧
      ∃ m₁, Builtin.invert.program.start (m₀.run bound).1.status.tape = .ok m₁ ∧
        ∀ bound', 2 * s.length + 2 < bound' → (m₁.run bound').1.status.tape = s := by
  obtain ⟨m₀, hstart, hruns⟩ := exists_inverts s hs
  have hbits : IsBits (String.ofList (complement s.toList)).toList := by
    rw [String.toList_ofList]
    exact isBits_complement _
  obtain ⟨m₁, hstart', hruns'⟩ := exists_inverts _ hbits
  refine ⟨m₀, hstart, hruns bound hbound, m₁, ?_, ?_⟩
  · rw [(hruns bound hbound).tape]
    exact hstart'
  · intro bound' hbound'
    have hagain := hruns' bound' (by rwa [String.length_ofList, length_complement, String.length_toList])
    rw [hagain.tape, String.toList_ofList, complement_complement hs, String.ofList_toList]

/-- There and back. -/
theorem invert_flips_every_bit_twice :
    IsBits "001".toList ∧ 2 * "001".length + 2 < 9 ∧
      ∃ m₀, Builtin.invert.program.start "001" = .ok m₀ ∧ (m₀.run 9).2 = 8 ∧ (m₀.run 9).1.status.tape = "110" ∧
        ∃ m₁, Builtin.invert.program.start "110" = .ok m₁ ∧ (m₁.run 10).1.status.tape = "001" := by
  have hbits : IsBits "001".toList := by simp [IsBits]
  obtain ⟨m₀, hstart, h, m₁, hstart', hback⟩ := invert_flips_every_bit "001" hbits 9 (by decide)
  have htape : (m₀.run 9).1.status.tape = "110" := h.tape
  rw [htape] at hstart'
  exact ⟨hbits, by decide, m₀, hstart, h.ended.steps, htape, m₁, hstart', hback 10 (by decide)⟩

end TapeMachines.Invert
