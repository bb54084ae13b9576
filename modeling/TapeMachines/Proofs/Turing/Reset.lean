import TapeMachines.Proofs.Calls
import TapeMachines.Turing.Automaton
/-!
# A reset forgets

A Turing machine keeps its last input for the reset to bring back, and everything else that calls change is
put back to where a start puts it. Which input that is can be told from the calls alone (`lastInput`): steps
and runs do not touch it, and a Turing machine refuses no input. Main statement: `reset_forgets`.
-/

namespace TapeMachines

/-- The input that a call loads. -/
def Call.input? : Call → Option String
  | .load input => some input
  | .step | .run _ | .reset => none

/-- The input that was loaded last, or the first one where none was loaded. -/
def lastInput (first : String) (calls : List Call) : String :=
  (calls.filterMap Call.input?).getLast?.getD first

theorem lastInput_cons (first : String) (call : Call) (calls : List Call) :
    lastInput first (call :: calls) = lastInput (call.input?.getD first) calls := by
  unfold lastInput
  cases hc : call.input? with
  | none => simp [hc]
  | some input => simp [hc, List.getLast?_cons]

namespace Turing

open Machine

variable {p : Program} {m : Machine String}

/-- The input after a call is the one it loads; a call that loads none keeps it. -/
theorem input_after (hu : m.unit = p.automaton) (call : Call) :
    (m.after call).input = (call.input?.map String.toList).getD m.input := by
  cases call with
  | step => exact m.input_next
  | run bound => exact m.input_run bound
  | load input =>
    have hall : ∀ c ∈ input.toList, m.unit.admits c = true := by
      intro c _
      rw [hu]
      rfl
    rw [after, load_eq_ok_iff.2 ⟨hall, rfl⟩]
    rfl
  | reset => rfl

theorem input_afterAll (hu : m.unit = p.automaton) {input : String} (hi : m.input = input.toList)
    (calls : List Call) : (m.afterAll calls).input = (lastInput input calls).toList := by
  induction calls generalizing m input with
  | nil => exact hi
  | cons call calls ih =>
    -- What the first call leaves as the input counts as the first input of the calls after it.
    rw [lastInput_cons]
    apply ih ((m.unit_after call).trans hu)
    rw [input_after hu, hi]
    cases call.input? <;> rfl

/-- The tape before a reset is thrown away. -/
theorem reset_eq_on (hu : m.unit = p.automaton) : m.reset = p.automaton.on m.input := reset_eq_onTape hu

/-- After any calls a reset leaves the machine that the program starts on the input loaded last, in every
part. All calls after it then make of the one what they make of the other, and give the same back. -/
theorem reset_forgets (p : Program) (input : String) (calls : List Call) :
    ∃ m fresh, p.automaton.start input = .ok m ∧ p.automaton.start (lastInput input calls) = .ok fresh ∧
      (m.afterAll calls).reset = fresh ∧
      ∀ later, m.afterAll (calls ++ .reset :: later) = fresh.afterAll later ∧
        m.replies (calls ++ .reset :: later) = m.replies calls ++ .done :: fresh.replies later := by
  have hstart : ∀ s : String, p.automaton.start s = .ok (p.automaton.on s.toList) := by
    intro s
    exact Automaton.start_eq_ok_iff.2 ⟨fun _ _ => rfl, rfl⟩
  have hreset : ((p.automaton.on input.toList).afterAll calls).reset = p.automaton.on (lastInput input calls).toList := by
    have hu : ((p.automaton.on input.toList).afterAll calls).unit = p.automaton := unit_afterAll _ calls
    rw [reset_eq_on hu, input_afterAll (p := p) rfl rfl calls]
  refine ⟨_, _, hstart input, hstart (lastInput input calls), hreset, ?_⟩
  intro later
  constructor
  · rw [afterAll_append, ← hreset]
    rfl
  · rw [replies_append, ← hreset]
    rfl

end Turing

end TapeMachines
