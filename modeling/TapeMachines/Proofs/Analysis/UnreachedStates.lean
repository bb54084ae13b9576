import TapeMachines.Proofs.Analysis.Turing
import TapeMachines.Proofs.Exchange
import TapeMachines.Proofs.Runs
import TapeMachines.Proofs.Turing.Lookup
/-!
# States that are never reached

A program is reported to have no rule for the start state exactly if it takes no step on any input: a
rule for it would be followed on the one symbol it reads. Of any other program the states reported as
unreachable are those with rules that no path of rules leads to. Control never comes to one of them
(`confined`), and the program without their rules, `pruned`, finds the same rule at every reached
state (`find?_pruned`). Main statement: `unreachable_states_prunable`.
-/

namespace TapeMachines

namespace Analysis.Problem

/-- The states that a problem reports as unreachable. -/
def unreachedStates? : Problem → Option (List String)
  | .unreachableStates states => some states
  | _ => none

end Analysis.Problem

namespace Turing.Program

open Analysis

variable {p : Program}

theorem start_eq (p : Program) (input : String) : p.automaton.start input = .ok (p.automaton.on input.toList) :=
  Automaton.start_eq_ok_iff.2 ⟨fun _ _ => rfl, rfl⟩

/-! ## The first step -/

theorem order_of_not_starts (h : ¬p.Starts) (read : Char) : p.order "0" read = .stop .noMatchingRule "" := by
  have hf : p.find? "0" read = none := by
    rw [find?, List.find?_eq_none]
    intro r hr hm
    exact h ⟨r, hr, congrArg Prod.fst (matches_iff_key_eq.1 hm)⟩
  rw [order, hf]

/-- Without a rule for the start state the machine stops at once. -/
theorem step_of_not_starts (h : ¬p.Starts) (input : List Char) :
    (p.automaton.on input).step.2 = .stopped .noMatchingRule := by
  have ho : (p.automaton.on input).unit.order (p.automaton.on input).control
      (p.automaton.on input).tape.symbol = .stop .noMatchingRule "" := order_of_not_starts h _
  rw [Machine.step_of_stop rfl ho]

/-- With a rule for the start state there is an input on which a step is taken: the symbol it reads. -/
theorem exists_step_of_starts (h : p.Starts) :
    ∃ input, (p.automaton.on input).step.2.isStep = true := by
  obtain ⟨r, hr, hs⟩ := h
  obtain ⟨s, hf⟩ : ∃ s, p.find? "0" r.read = some s := by
    rw [← Option.isSome_iff_exists, find?, List.find?_isSome]
    exact ⟨r, hr, matches_iff_key_eq.2 (congrArg (·, r.read) hs)⟩
  -- On the input of that one symbol the head is on it, also if it is the blank.
  refine ⟨[r.read], ?_⟩
  have ho : (p.automaton.on [r.read]).unit.order (p.automaton.on [r.read]).control
      (p.automaton.on [r.read]).tape.symbol = .go s.text (some s.write) s.move s.next := by
    show p.order "0" r.read = _
    rw [order, hf]
  rw [Machine.step_of_go rfl ho]
  rfl

theorem exists_invalidStartState_iff : (∃ s, .invalidStartState s ∈ p.problems) ↔ ¬p.Starts := by
  constructor
  · rintro ⟨s, hs⟩
    exact (invalidStartState_mem_problems_iff.1 hs).2
  · intro h
    exact ⟨"0", invalidStartState_mem_problems_iff.2 ⟨rfl, h⟩⟩

theorem not_starts_iff_stopped :
    ¬p.Starts ↔ ∀ input : String, (p.automaton.on input.toList).step.2 = .stopped .noMatchingRule := by
  constructor
  · intro h input
    exact step_of_not_starts h input.toList
  · intro h hs
    obtain ⟨input, hi⟩ := exists_step_of_starts hs
    have hstop := h (String.ofList input)
    rw [String.toList_ofList] at hstop
    rw [hstop] at hi
    cases hi

theorem not_starts_iff_no_steps :
    ¬p.Starts ↔ ∀ (input : String) (n : Nat), (Machine.next^[n] (p.automaton.on input.toList)).stepCount = 0 := by
  constructor
  · intro h input n
    have hfirst : (p.automaton.on input.toList).step.2.isStep = false := by
      rw [step_of_not_starts h]
      rfl
    rw [Machine.stepCount_iterate, Machine.stepsIn_eq_zero hfirst]
    rfl
  · intro h hs
    obtain ⟨input, hi⟩ := exists_step_of_starts hs
    have hone := h (String.ofList input) 1
    rw [String.toList_ofList, Function.iterate_one, Machine.stepCount_next, if_pos hi] at hone
    exact Nat.succ_ne_zero _ hone

/-! ## What is reported of other states -/

/-- The states that are reported as unreachable. -/
def deadStates (p : Program) : List String := (p.problems.filterMap Problem.unreachedStates?).flatten

theorem mem_unreachableStates_iff {s : String} :
    s ∈ p.unreachableStates ↔ (∃ r ∈ p.rules, r.state = s) ∧ ¬p.Reached s := by
  rw [unreachableStates, mem_sortStates, List.mem_filter, List.mem_map, decide_eq_true_eq, mem_reachable_iff]

theorem filterMap_unreachedStates? (h : p.Starts) :
    p.problems.filterMap Problem.unreachedStates? =
      if p.unreachableStates = [] then [] else [p.unreachableStates] := by
  rw [filterMap_problems_of_states (fun _ _ => rfl) (fun _ _ _ => rfl), stateProblems_of_starts h]
  split <;> rfl

theorem filterMap_unreachedStates?_of_not_starts (h : ¬p.Starts) :
    p.problems.filterMap Problem.unreachedStates? = [] := by
  rw [filterMap_problems_of_states (fun _ _ => rfl) (fun _ _ _ => rfl), stateProblems_of_not_starts h]
  rfl

theorem not_mem_deadStates_of_reached {s : String} (hr : p.Reached s) : s ∉ p.deadStates := by
  by_cases h : p.Starts
  · rw [deadStates, filterMap_unreachedStates? h]
    split
    · simp
    · simp [mem_unreachableStates_iff, hr]
  · simp [deadStates, filterMap_unreachedStates?_of_not_starts h]

/-! ## Control never leaves the reached states -/

theorem confined (p : Program) : p.automaton.Confined p.Reached where
  initial := .refl
  next := by
    intro s t read text write move hr ho
    obtain ⟨r, hr', hk, ht⟩ := order_eq_go ho
    exact hr.tail ⟨r, hr', congrArg Prod.fst hk, ht⟩

/-! ## The program without them -/

/-- The program without the rules whose states are reported as unreachable. -/
def pruned (p : Program) : Program := ⟨p.rules.filter fun r => r.state ∉ p.deadStates, p.ignored⟩

theorem find?_pruned {s : String} (hr : p.Reached s) (read : Char) : p.pruned.find? s read = p.find? s read := by
  have hkeep : s ∉ p.deadStates := not_mem_deadStates_of_reached hr
  rw [find?, pruned, List.find?_filter, find?]
  congr 1
  funext r
  by_cases hs : r.state = s
  · simp [hs, hkeep]
  · simp [hs]

theorem alike_pruned (p : Program) : p.automaton.Alike p.pruned.automaton := by
  refine Automaton.alike_of_confined p.confined ?_
  intro s hr
  funext read
  show p.pruned.order s read = p.order s read
  rw [order, order, find?_pruned hr]

/-! ## Main theorem -/

/-- By code points: the first that differs decides, and a beginning of a text comes before it. -/
def Precedes (s t : String) : Prop := List.Lex (fun c d => c.toNat < d.toNat) s.toList t.toList

/-- The start state is reported to have no rule exactly if on every input the first step is a stop, or
what is the same, no step is ever counted. Otherwise the states reported as unreachable are those with
a rule that no path of rules leads to, by code points and each once; there is no such report if there
are none. On every input control never comes to one of them, and the program without their rules
cannot be told from it by any calls. -/
theorem unreachable_states_prunable (p : Program) :
    ((∃ s, .invalidStartState s ∈ p.problems) ↔
      ∀ input m, p.automaton.start input = .ok m → m.step.2 = .stopped .noMatchingRule) ∧
    ((∃ s, .invalidStartState s ∈ p.problems) ↔
      ∀ input m, p.automaton.start input = .ok m → ∀ n, (Machine.next^[n] m).stepCount = 0) ∧
    ((∀ s, .invalidStartState s ∉ p.problems) →
      ∃ dead : List String, dead.Pairwise Precedes ∧ dead.Nodup ∧
        (∀ s, s ∈ dead ↔ (∃ r ∈ p.rules, r.state = s) ∧ ¬p.Reached s) ∧
        p.problems.filterMap Problem.unreachedStates? = if dead = [] then [] else [dead]) ∧
    (∀ input, ∃ m, p.automaton.start input = .ok m ∧ ∀ calls, (m.afterAll calls).control ∉ p.deadStates) ∧
    p.automaton.Alike p.pruned.automaton := by
  simp only [start_eq, Except.ok.injEq, forall_eq', exists_eq_left']
  refine ⟨?stopped, ?noSteps, ?report, ?control, p.alike_pruned⟩
  case stopped => rw [exists_invalidStartState_iff, not_starts_iff_stopped]
  case noSteps => rw [exists_invalidStartState_iff, not_starts_iff_no_steps]
  case report =>
    intro hno
    have hs : p.Starts := by
      by_contra h
      obtain ⟨s, hs⟩ := exists_invalidStartState_iff.2 h
      exact hno s hs
    have hsorted : p.unreachableStates.Pairwise (· < ·) := sorted_sortStates _
    exact ⟨p.unreachableStates, hsorted, hsorted.imp ne_of_lt, fun _ => mem_unreachableStates_iff,
      filterMap_unreachedStates? hs⟩
  case control =>
    intro input calls
    exact not_mem_deadStates_of_reached (Machine.confined_afterAll p.confined input.toList calls)

/-- State `b` leads to the start state but is not reached; state `a` is, by a rule that is shadowed. -/
def aside : Program :=
  ⟨[⟨"b", '_', "0", '_', .left⟩, ⟨"0", '1', "0", '1', .right⟩, ⟨"0", '1', "a", '1', .stay⟩,
    ⟨"a", '1', "a", '1', .stay⟩], []⟩

theorem unreachable_states_prunable_aside :
    (∀ s, .invalidStartState s ∉ aside.problems) ∧
      aside.problems.filterMap Problem.unreachedStates? = [["b"]] ∧
      (∃ dead, aside.problems.filterMap Problem.unreachedStates? = [dead] ∧
        ∀ s, s ∈ dead ↔ (∃ r ∈ aside.rules, r.state = s) ∧ ¬aside.Reached s) ∧
      ∀ input, ∃ m, aside.automaton.start input = .ok m ∧ ∀ calls, (m.afterAll calls).control ∉ ["b"] := by
  have hno : ∀ s, .invalidStartState s ∉ aside.problems := by
    intro s hs
    have hp : aside.problems = [.shadowedRule 3 "0" '1', .unreachableStates ["b"]] := by cbv
    simp [hp] at hs
  have hview : aside.problems.filterMap Problem.unreachedStates? = [["b"]] := by cbv
  obtain ⟨-, -, hreport, hcontrol, -⟩ := unreachable_states_prunable aside
  obtain ⟨dead, -, -, hdead, hlist⟩ := hreport hno
  have hne : dead ≠ [] := by
    rintro rfl
    rw [hview] at hlist
    cases hlist
  rw [if_neg hne] at hlist
  have hd : aside.deadStates = ["b"] := by rw [deadStates, hview]; rfl
  rw [hd] at hcontrol
  exact ⟨hno, hview, ⟨dead, hlist, hdead⟩, hcontrol⟩

end Turing.Program

end TapeMachines
