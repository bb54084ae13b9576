import TapeMachines.Post.Automaton
import TapeMachines.Proofs.Analysis.Post
import TapeMachines.Proofs.Calls
/-!
# The analysis foretells every halt

`Traced` follows a Post machine through any calls: the line it has come to is line 1 or a target of
the line its last step was taken at, and once it has stopped the last entry of the log names the
order that stopped it. Main statement: `halts_foretold`, by which every halt other than a deliberate
one is reported beforehand, whatever the tape.
-/

namespace TapeMachines

/-- The last entry of the log that is a step, not a halt. -/
def Machine.lastStep? {κ : Type} (m : Machine κ) : Option LogEntry :=
  (m.log.toList.filter fun e => e.halt = none).getLast?

namespace Post

open Analysis

variable {p : Program} {m : Machine Nat}

/-- How a machine of the program came to its line, and what stopped it there. -/
structure Traced (p : Program) (m : Machine Nat) : Prop where
  unit : m.unit = p.automaton
  came : m.stepCount = 0 ∧ m.control = firstLine ∨
    ∃ i ∈ p.instructions, m.control ∈ i.command.targets ∧
      ∃ e, m.lastStep? = some e ∧ e.before = toString i.line
  stop : ∀ reason, m.halt = some reason → ∃ e read, m.log.back? = some e ∧ e.halt = some reason ∧
    p.order m.control read = .stop reason e.instruction

theorem traced_on (p : Program) (input : List Char) : Traced p (p.automaton.on input) where
  unit := rfl
  came := .inl ⟨rfl, rfl⟩
  stop := by rintro reason ⟨⟩

theorem Traced.next (h : Traced p m) : Traced p m.next := by
  obtain ⟨hu, hc, hst⟩ := h
  refine m.next_cases (fun _ => ⟨hu, hc, hst⟩) ?stop ?go
  case stop =>
    intro reason text hm ho
    rw [hu] at ho
    -- The entry of a halt is no step.
    have hl : (m.stopWith reason text).lastStep? = m.lastStep? := by
      simp [Machine.lastStep?, Machine.stopWith, Machine.entry]
    refine ⟨hu, by rw [hl]; exact hc, ?_⟩
    rintro r ⟨⟩
    exact ⟨_, m.tape.symbol, Array.back?_push, rfl, ho⟩
  case go =>
    intro text write move next hm ho
    rw [hu] at ho
    obtain ⟨i, hi, -, ht⟩ := Program.order_eq_go ho
    have hl : (m.goOn text write move next).lastStep? =
        some (m.entry text next (m.tape.perform write move) none) := by
      simp [Machine.lastStep?, Machine.goOn, Machine.entry]
    have hb : m.unit.label m.control = toString i.line := by
      rw [hu, Program.line_of_find? hi]; rfl
    refine ⟨hu, .inr ⟨i, Program.mem_of_find? hi, ht, _, hl, hb⟩, fun r hr => ?_⟩
    have hn : (m.goOn text write move next).halt = none := hm
    rw [hn] at hr
    cases hr

theorem Traced.withTape (h : Traced p m) (input : List Char) : Traced p (m.withTape input) :=
  ⟨h.unit, h.came, h.stop⟩

theorem Traced.reset (h : Traced p m) : Traced p m.reset where
  unit := h.unit
  came := .inl ⟨rfl, congrArg (·.initial) h.unit⟩
  stop := by rintro reason ⟨⟩

theorem Traced.afterAll (h : Traced p m) (calls : List Call) : Traced p (m.afterAll calls) :=
  Machine.inv_afterAll (fun _ h => h.next) (fun _ input h _ => h.withTape input) (fun _ h => h.reset) h calls

/-! ## Each reason to halt -/

theorem Traced.malformed (h : Traced p m) (hm : m.halt = some .malformedOperands) :
    ∃ e, m.log.back? = some e ∧ e.halt = some .malformedOperands ∧
      .malformedInstruction m.control e.instruction ∈ p.problems := by
  obtain ⟨e, read, he, hh, ho⟩ := h.stop _ hm
  refine ⟨e, he, hh, ?_⟩
  rcases Program.order_eq_stop ho with ⟨-, hr⟩ | ⟨i, hi, ht, ⟨-, hr⟩ | ⟨hc, -⟩⟩
  · cases hr
  · cases hr
  · rw [ht, ← Program.line_of_find? hi]
    exact Program.malformedInstruction_mem_problems (Program.mem_of_find? hi) hc

theorem Traced.noMatchingRule (h : Traced p m) (hm : m.halt = some .noMatchingRule) :
    (m.stepCount = 0 ∧ m.control = 1 ∧ ∀ i ∈ p.instructions, i.line ≠ 1) ∨
      ∃ l e, m.lastStep? = some e ∧ e.before = toString l ∧ .undefinedTarget l m.control ∈ p.problems := by
  obtain ⟨e, read, -, -, ho⟩ := h.stop _ hm
  have hf : p.find? m.control = none := by
    rcases Program.order_eq_stop ho with ⟨hf, -⟩ | ⟨i, hi, ht, ⟨-, hr⟩ | ⟨-, hr⟩⟩
    · exact hf
    · cases hr
    · cases hr
  rcases h.came with ⟨hs, hc⟩ | ⟨i, hi, ht, d, hd, hb⟩
  · rw [hc] at hf ⊢
    exact .inl ⟨hs, rfl, Program.find?_eq_none_iff.1 hf⟩
  · exact .inr ⟨i.line, d, hd, hb, Program.undefinedTarget_mem_problems hi ht hf⟩

theorem Traced.deliberate (h : Traced p m) (hm : m.halt = some .deliberate) : .missingHalt ∉ p.problems := by
  obtain ⟨e, read, -, -, ho⟩ := h.stop _ hm
  rw [Program.missingHalt_mem_problems_iff]
  intro hno
  rcases Program.order_eq_stop ho with ⟨-, hr⟩ | ⟨i, hi, -, ⟨hc, -⟩ | ⟨-, hr⟩⟩
  · cases hr
  · exact hno i (Program.mem_of_find? hi) hc
  · cases hr

theorem Traced.reason_of_no_problems (h : Traced p m) (hp : p.problems = []) {reason : Halt}
    (hm : m.halt = some reason) : reason = .deliberate := by
  cases reason with
  | deliberate => rfl
  | malformedOperands =>
    obtain ⟨e, -, -, hq⟩ := h.malformed hm
    simp [hp] at hq
  | noMatchingRule =>
    rcases h.noMatchingRule hm with ⟨-, -, hno⟩ | ⟨l, e, -, -, hq⟩
    · obtain ⟨i, hi, hl⟩ := Program.exists_firstLine_of_no_problems hp
      exact absurd hl (hno i hi)
    · simp [hp] at hq

/-! ## Main theorem -/

/-- After any calls on a machine that has started: a malformed instruction that has stopped it is
reported with its line and text; a missing line is reported as a target of the line of the last step,
unless no step was taken and line 1 itself is missing; and a deliberate halt is not reported as
missing. So a program without problems has a line 1 and halts deliberately or not at all. -/
theorem halts_foretold (p : Program) (input : String) (m₀ : Machine Nat)
    (h : p.automaton.start input = .ok m₀) (calls : List Call) :
    let m := m₀.afterAll calls
    (m.halt = some .malformedOperands → ∃ e, m.log.back? = some e ∧ e.halt = some .malformedOperands ∧
        .malformedInstruction m.control e.instruction ∈ p.problems) ∧
      (m.halt = some .noMatchingRule →
        (m.stepCount = 0 ∧ m.control = 1 ∧ ∀ i ∈ p.instructions, i.line ≠ 1) ∨
          ∃ l e, m.lastStep? = some e ∧ e.before = toString l ∧ .undefinedTarget l m.control ∈ p.problems) ∧
      (m.halt = some .deliberate → .missingHalt ∉ p.problems) ∧
      (p.problems = [] →
        (∃ i ∈ p.instructions, i.line = 1) ∧ ∀ reason, m.halt = some reason → reason = .deliberate) := by
  obtain ⟨-, rfl⟩ := Automaton.start_eq_ok_iff.1 h
  have ht := (traced_on p input.toList).afterAll calls
  exact ⟨ht.malformed, ht.noMatchingRule, ht.deliberate, fun hp =>
    ⟨Program.exists_firstLine_of_no_problems hp, fun _ => ht.reason_of_no_problems hp⟩⟩

/-- The second of two lines 1 is never executed, and the jump to line 0 is the one reported. -/
theorem halts_foretold_missing_target :
    let p : Program := ⟨[⟨1, "→ 0", .perform .right 0⟩, ⟨1, "!", .halt⟩]⟩
    ∃ m₀, p.automaton.start "1" = .ok m₀ ∧ (m₀.afterAll [.run 5]).halt = some .noMatchingRule ∧
      (m₀.afterAll [.run 5]).control = 0 ∧
      ∃ l e, (m₀.afterAll [.run 5]).lastStep? = some e ∧ e.before = toString l ∧
        .undefinedTarget l 0 ∈ p.problems :=
  ⟨_, rfl, by decide, by decide,
    ((halts_foretold _ "1" _ rfl [.run 5]).2.1 (by decide)).resolve_left (by decide)⟩

end Post

end TapeMachines
