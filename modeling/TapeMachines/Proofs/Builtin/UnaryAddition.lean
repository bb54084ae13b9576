import TapeMachines.Builtin
import TapeMachines.Proofs.Sweeps
/-!
# The two unary additions agree

Both programs go by one plan, `Plan`: over the first operand, a mark in place of the separator, over the second
operand, and back from the blank behind it to erase the last mark. They differ in the separator and in the steps
that each part takes. `Plan.leads` follows a run of whatever goes by the plan, for operands of any size. Main
statement: `unary_additions_agree`.
-/

namespace TapeMachines.UnaryAddition

/-- Two operands in marks, with a separator between them. -/
def operands (separator : Char) (x y : Nat) : List Char :=
  List.replicate x '1' ++ separator :: List.replicate y '1'

/-! ## The tape that is left -/

/-- Behind `n` marks the head is on the first of two visited blanks. -/
def sumTape (blank : Char) (n : Nat) : Tape := ⟨blank, List.replicate n '1', blank, [blank], n⟩

theorem render_sumTape (blank : Char) (n : Nat) :
    (sumTape blank n).render = List.replicate n '1' ++ [blank, blank] := by
  simp [Tape.render, sumTape]

theorem leftmost_sumTape (blank : Char) (n : Nat) : (sumTape blank n).leftmost = 0 := by
  simp [Tape.leftmost, sumTape]

theorem contents_sumTape {blank : Char} (h : blank ≠ '1') (n : Nat) :
    (sumTape blank n).contents = List.replicate n '1' := by
  have hrender : (sumTape blank n).render = [] ++ List.replicate n '1' ++ [blank, blank] := render_sumTape blank n
  refine Tape.contents_of_word hrender (List.forall_mem_nil _) (by simp [sumTape]) ?_
  intro c hc
  rw [List.eq_of_mem_replicate hc]
  exact h.symm

/-! ## The plan -/

/-- A unit adds by the plan: at `first` it goes over marks in `pass` steps each and takes `join` steps to put a mark
in place of the separator, at `second` it goes over marks again, and `erase` steps on a blank behind marks lead back
to the last of them and erase it. -/
structure Plan {κ : Type} (u : Automaton κ) (separator : Char) (first second last : κ) (pass join erase : Nat) :
    Prop where
  admits : u.admits '1' = true ∧ u.admits separator = true
  passFirst : ∀ left right head, u.Leads pass (first, .facingRight u.blank left ('1' :: right) head)
    (first, .facingRight u.blank ('1' :: left) right (head + 1))
  join : ∀ left right head, u.Leads join (first, .facingRight u.blank left (separator :: right) head)
    (second, .facingRight u.blank ('1' :: left) right (head + 1))
  passSecond : ∀ left right head, u.Leads pass (second, .facingRight u.blank left ('1' :: right) head)
    (second, .facingRight u.blank ('1' :: left) right (head + 1))
  erase : ∀ left head, u.Leads erase (second, .facingRight u.blank ('1' :: left) [] head)
    (last, ⟨u.blank, left, u.blank, [u.blank], head - 1⟩)

namespace Plan

variable {κ : Type} {u : Automaton κ} {separator : Char} {first second last : κ} {pass join erase : Nat}

theorem start_eq (h : Plan u separator first second last pass join erase) (x y : Nat) :
    u.start (String.ofList (operands separator x y)) = .ok (u.on (operands separator x y)) := by
  have hadmits : ∀ c ∈ operands separator x y, u.admits c = true := by
    intro c hc
    rcases List.mem_append.1 hc with hc | hc
    · rw [List.eq_of_mem_replicate hc]
      exact h.admits.1
    · rcases List.mem_cons.1 hc with rfl | hc
      · exact h.admits.2
      · rw [List.eq_of_mem_replicate hc]
        exact h.admits.1
  refine Automaton.start_eq_ok_iff.2 ⟨?_, ?_⟩
  · rwa [String.toList_ofList]
  · rw [String.toList_ofList]

theorem leads (h : Plan u separator first second last pass join erase) (x y : Nat) :
    u.Leads (x * pass + join + y * pass + erase) (first, Tape.ofList u.blank (operands separator x y))
      (last, sumTape u.blank (x + y)) := by
  have hfirst := Automaton.leads_right_row h.passFirst x [] (separator :: List.replicate y '1') 0
  rw [List.append_nil, Int.zero_add] at hfirst
  have hjoin := h.join (List.replicate x '1') (List.replicate y '1') x
  have hsecond := Automaton.leads_right_row h.passSecond y ('1' :: List.replicate x '1') [] (x + 1)
  have hmarks : List.replicate y '1' ++ '1' :: List.replicate x '1' = '1' :: List.replicate (x + y) '1' := by
    rw [← List.replicate_succ, List.replicate_append_replicate, ← List.replicate_succ,
      show y + (x + 1) = x + y + 1 by omega]
  rw [List.append_nil, hmarks] at hsecond
  have herase := h.erase (List.replicate (x + y) '1') (x + 1 + y)
  rw [show (x : Int) + 1 + y - 1 = (x + y : Nat) by omega] at herase
  rw [Tape.ofList_eq_facingRight]
  exact ((hfirst.trans hjoin).trans hsecond).trans herase

/-- A run of a unit that adds by the plan, with any bound that leaves room for the stop. -/
theorem run_on (h : Plan u separator u.initial second last pass join erase) {reason : Halt} {instruction : String}
    (hstop : u.order last u.blank = .stop reason instruction) (x y : Nat) {bound : Nat}
    (hbound : x * pass + join + y * pass + erase < bound) :
    let run := (u.on (operands separator x y)).run bound
    Ended run (x * pass + join + y * pass + erase) reason (u.label last) ∧ run.1.tape = sumTape u.blank (x + y) ∧
      run.1.status.tape = String.ofList (u.shows (sumTape u.blank (x + y))).1 ∧
      run.1.status.origin = (u.shows (sumTape u.blank (x + y))).2 := by
  intro run
  obtain ⟨hsteps, hstopped⟩ := Automaton.run_on_of_leads (h.leads x y) hstop hbound
  refine ⟨hstopped.ended hsteps, hstopped.tape, ?_⟩
  rw [hstopped.status]
  exact ⟨rfl, rfl⟩

end Plan

/-! ## The Turing program -/

/-- The rules in the listing. -/
def turingProgram : Turing.Program where
  rules :=
    [⟨"0", '1', "0", '1', .right⟩, ⟨"0", '+', "1", '1', .right⟩, ⟨"1", '1', "1", '1', .right⟩,
      ⟨"1", '_', "2", '_', .left⟩, ⟨"2", '1', "3", '_', .stay⟩]
  ignored := []

theorem turingProgram_builtin : Builtin.turingAddition.program = .turing turingProgram := by
  show Program.turing (.ofText Builtin.turingAddition.listing) = _
  unfold Turing.Program.ofText Builtin.turingAddition
  simp only [String.toList_append]
  decide +kernel

abbrev turingUnit : Automaton String := turingProgram.automaton

theorem plan_turing : Plan turingUnit '+' "0" "1" "3" 1 1 2 where
  admits := ⟨rfl, rfl⟩
  -- State 0 goes on over a mark and puts one in place of the separator.
  passFirst _ _ _ := .step rfl (.done _)
  join _ _ _ := .step rfl (.done _)
  -- State 1 goes on over a mark and turns back at the blank, and state 2 erases the mark before it.
  passSecond _ _ _ := .step rfl (.done _)
  erase _ _ := .step rfl (.step rfl (.done _))

/-- A run on the operands `x` and `y` has come to its stop on their sum. -/
structure TuringSum {κ : Type} (x y : Nat) (run : Machine κ × Nat) : Prop where
  ended : Ended run (x + y + 3) .noMatchingRule "3"
  tape : run.1.status.tape = String.ofList (List.replicate (x + y) '1')
  contents : run.1.tape.contents = List.replicate (x + y) '1'

theorem exists_turingSum (x y : Nat) {bound : Nat} (hbound : x + y + 3 < bound) :
    ∃ m₀, Builtin.turingAddition.program.start (String.ofList (operands '+' x y)) = .ok m₀ ∧
      TuringSum x y (m₀.run bound) := by
  rw [turingProgram_builtin]
  have hsteps : x * 1 + 1 + y * 1 + 2 = x + y + 3 := by omega
  have hcontents : (sumTape '_' (x + y)).contents = List.replicate (x + y) '1' := contents_sumTape (by decide) _
  rw [← hsteps] at hbound
  obtain ⟨hended, htape, hshown, -⟩ := plan_turing.run_on rfl x y hbound
  rw [hsteps] at hended
  refine ⟨_, plan_turing.start_eq x y, hended, ?_, ?_⟩
  · exact hshown.trans (congrArg String.ofList hcontents)
  · rw [htape]
    exact hcontents

/-! ## The Post program -/

/-- The instructions in the listing. -/
def postProgram : Post.Program where
  instructions :=
    [⟨1, "? 3 2", .branch 3 2⟩, ⟨2, "→ 1", .perform .right 1⟩, ⟨3, "1 4", .perform .mark 4⟩,
      ⟨4, "→ 5", .perform .right 5⟩, ⟨5, "? 6 4", .branch 6 4⟩, ⟨6, "← 7", .perform .left 7⟩,
      ⟨7, "0 8", .perform .erase 8⟩, ⟨8, "!", .halt⟩]

theorem postProgram_builtin : Builtin.postAddition.program = .post postProgram := by
  show Program.post (.ofText Builtin.postAddition.listing) = _
  unfold Post.Program.ofText Builtin.postAddition
  simp only [String.toList_append]
  decide +kernel

abbrev postUnit : Automaton Nat := postProgram.automaton

theorem plan_post : Plan postUnit '0' 1 5 8 2 3 3 where
  admits := ⟨rfl, rfl⟩
  -- Lines 1 and 2 over a mark, and 1, 3 and 4 over the separator.
  passFirst := Automaton.leads_look_right ⟨_, rfl⟩ ⟨_, rfl⟩ '0'
  join _ _ _ := .step rfl (.step rfl (.step rfl (.done _)))
  -- Lines 5 and 4 over a mark, and 5, 6 and 7 back from the blank.
  passSecond := Automaton.leads_look_right ⟨_, rfl⟩ ⟨_, rfl⟩ '0'
  erase _ _ := .step rfl (.step rfl (.step rfl (.done _)))

/-- A run on the operands `x` and `y` has come to its stop on their sum, with two zeros behind it. -/
structure PostSum {κ : Type} (x y : Nat) (run : Machine κ × Nat) : Prop where
  ended : Ended run (2 * x + 2 * y + 6) .deliberate "8"
  tape : run.1.status.tape = String.ofList (List.replicate (x + y) '1' ++ ['0', '0'])
  origin : run.1.status.origin = 0
  contents : run.1.tape.contents = List.replicate (x + y) '1'

theorem exists_postSum (x y : Nat) {bound : Nat} (hbound : 2 * x + 2 * y + 6 < bound) :
    ∃ m₀, Builtin.postAddition.program.start (String.ofList (operands '0' x y)) = .ok m₀ ∧
      PostSum x y (m₀.run bound) := by
  rw [postProgram_builtin]
  have hsteps : x * 2 + 3 + y * 2 + 3 = 2 * x + 2 * y + 6 := by omega
  rw [← hsteps] at hbound
  obtain ⟨hended, htape, hshown, horigin⟩ := plan_post.run_on rfl x y hbound
  rw [hsteps] at hended
  refine ⟨_, plan_post.start_eq x y, hended, ?_, ?_, ?_⟩
  · exact hshown.trans (congrArg String.ofList (render_sumTape _ _))
  · exact horigin.trans (leftmost_sumTape _ _)
  · rw [htape]
    exact contents_sumTape (by decide) _

/-! ## Main theorem -/

/-- For operands of any size, zero included, and any bounds that leave room for the stops. -/
theorem unary_additions_agree (x y bound bound' : Nat) (hbound : x + y + 3 < bound)
    (hbound' : 2 * x + 2 * y + 6 < bound') :
    ∃ m₀, Builtin.turingAddition.program.start (String.ofList (operands '+' x y)) = .ok m₀ ∧
      ∃ m₁, Builtin.postAddition.program.start (String.ofList (operands '0' x y)) = .ok m₁ ∧
        TuringSum x y (m₀.run bound) ∧ PostSum x y (m₁.run bound') ∧
        (m₀.run bound).1.tape.contents = (m₁.run bound').1.tape.contents := by
  obtain ⟨m₀, hstart, hturing⟩ := exists_turingSum x y hbound
  obtain ⟨m₁, hstart', hpost⟩ := exists_postSum x y hbound'
  exact ⟨m₀, hstart, m₁, hstart', hturing, hpost, hturing.contents.trans hpost.contents.symm⟩

/-- An empty operand: the separator becomes the first mark of the sum. -/
theorem unary_additions_agree_on_nothing :
    0 + 1 + 3 < 5 ∧ 2 * 0 + 2 * 1 + 6 < 9 ∧
      ∃ m₀, Builtin.turingAddition.program.start "+1" = .ok m₀ ∧
        ∃ m₁, Builtin.postAddition.program.start "01" = .ok m₁ ∧
          (m₀.run 5).1.status.tape = "1" ∧ (m₁.run 9).1.status.tape = "100" := by
  obtain ⟨m₀, hstart, m₁, hstart', hturing, hpost, -⟩ := unary_additions_agree 0 1 5 9 (by decide) (by decide)
  exact ⟨by decide, by decide, m₀, hstart, m₁, hstart', hturing.tape, hpost.tape⟩

end TapeMachines.UnaryAddition
