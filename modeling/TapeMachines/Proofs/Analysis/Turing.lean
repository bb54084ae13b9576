import Mathlib.Data.String.Basic
import TapeMachines.Analysis.Turing
import TapeMachines.Proofs.Analysis.Walk
/-!
# What is reported of a Turing program

The walk over the rules visits the states that are `Reached`, and the states of a report are in order
and each once (`sorted_sortStates`). `mem_problems_iff` takes the problems apart by kind; where a view
shows one kind only, `filterMap_problems_of_states` and `filterMap_problems_of_rules` say what it shows.
-/

namespace TapeMachines.Turing.Program

open Analysis

variable {p : Program}

/-! ## Paths of rules -/

/-- Some rule leads from state `s` to state `t`. -/
def Leads (p : Program) (s t : String) : Prop := ∃ r ∈ p.rules, r.state = s ∧ r.next = t

/-- A path of rules, maybe of none, leads from state `0` to the state. -/
def Reached (p : Program) : String → Prop := Relation.ReflTransGen p.Leads "0"

theorem mem_successors_iff {s t : String} : t ∈ p.successors s ↔ p.Leads s t := by
  simp [successors, Leads, and_assoc]

theorem mem_reachable_iff {s : String} : s ∈ p.reachable ↔ p.Reached s :=
  p.graph.mem_walk_iff_of_edges fun _ _ => mem_successors_iff

/-! ## States in order -/

theorem mem_insertState {s t : String} {l : List String} : t ∈ insertState s l ↔ t = s ∨ t ∈ l := by
  induction l with
  | nil => simp [insertState]
  | cons u l ih =>
    unfold insertState
    split
    · rw [List.mem_cons]
    · split
      · rename_i hu
        simp [hu]
      · rw [List.mem_cons, ih, List.mem_cons]
        exact or_left_comm

theorem mem_sortStates {s : String} {l : List String} : s ∈ sortStates l ↔ s ∈ l := by
  induction l with
  | nil => rfl
  | cons t l ih =>
    rw [sortStates, List.foldr_cons, mem_insertState, List.mem_cons]
    exact or_congr_right ih

theorem sorted_insertState (s : String) {l : List String} (h : l.Pairwise (· < ·)) :
    (insertState s l).Pairwise (· < ·) := by
  induction l with
  | nil => exact List.pairwise_singleton _ _
  | cons u l ih =>
    obtain ⟨hu, hl⟩ := List.pairwise_cons.1 h
    unfold insertState
    split
    · rename_i hsu
      refine List.pairwise_cons.2 ⟨?_, h⟩
      intro t ht
      rcases List.mem_cons.1 ht with rfl | ht
      · exact hsu
      · exact hsu.trans (hu t ht)
    · split
      · exact h
      · rename_i hsu hne
        have hus : u < s := lt_of_le_of_ne (le_of_not_gt hsu) (Ne.symm hne)
        refine List.pairwise_cons.2 ⟨?_, ih hl⟩
        intro t ht
        rcases mem_insertState.1 ht with rfl | ht
        · exact hus
        · exact hu t ht

theorem sorted_sortStates (l : List String) : (sortStates l).Pairwise (· < ·) := by
  induction l with
  | nil => exact List.Pairwise.nil
  | cons s l ih => exact sorted_insertState s ih

/-! ## The kinds of problems -/

theorem exists_of_mem_shadowedFrom {n : Nat} {earlier : List (String × Char)} {rules : List Rule} {q : Problem}
    (h : q ∈ shadowedFrom n earlier rules) : ∃ m state symbol, q = .shadowedRule m state symbol := by
  induction rules generalizing n earlier with
  | nil => cases h
  | cons r rules ih =>
    unfold shadowedFrom at h
    split at h
    · rcases List.mem_cons.1 h with rfl | h
      · exact ⟨n, r.state, r.read, rfl⟩
      · exact ih h
    · exact ih h

theorem mem_problems_iff {q : Problem} :
    q ∈ p.problems ↔ (∃ line text, (line, text) ∈ p.ignored ∧ q = .ignoredLine line text) ∨
      q ∈ shadowedFrom 1 [] p.rules ∨ q ∈ p.stateProblems := by
  rw [problems, List.mem_append, List.mem_append, List.mem_map, or_assoc]
  refine or_congr_left ?_
  constructor
  · rintro ⟨⟨line, text⟩, hi, rfl⟩
    exact ⟨line, text, hi, rfl⟩
  · rintro ⟨line, text, hi, rfl⟩
    exact ⟨(line, text), hi, rfl⟩

/-- Some rule is for the start state. -/
def Starts (p : Program) : Prop := ∃ r ∈ p.rules, r.state = "0"

theorem stateProblems_of_not_starts (h : ¬p.Starts) : p.stateProblems = [.invalidStartState "0"] := by
  rw [stateProblems, if_pos]
  · rfl
  · rw [List.all_eq_true]
    intro r hr
    exact decide_eq_true fun hs => h ⟨r, hr, hs⟩

theorem stateProblems_of_starts (h : p.Starts) :
    p.stateProblems = if p.unreachableStates = [] then [] else [.unreachableStates p.unreachableStates] := by
  rw [stateProblems, if_neg]
  obtain ⟨r, hr, hs⟩ := h
  intro hall
  exact of_decide_eq_true (List.all_eq_true.1 hall r hr) hs

theorem invalidStartState_mem_problems_iff {s : String} :
    .invalidStartState s ∈ p.problems ↔ s = "0" ∧ ¬p.Starts := by
  rw [mem_problems_iff]
  constructor
  · rintro (⟨line, text, -, hq⟩ | hq | hq)
    · cases hq
    · obtain ⟨n, state, symbol, hq⟩ := exists_of_mem_shadowedFrom hq
      cases hq
    · by_cases h : p.Starts
      · rw [stateProblems_of_starts h, List.mem_ite_nil_left] at hq
        simp at hq
      · rw [stateProblems_of_not_starts h, List.mem_singleton] at hq
        cases hq
        exact ⟨rfl, h⟩
  · rintro ⟨rfl, h⟩
    rw [stateProblems_of_not_starts h]
    exact .inr (.inr List.mem_cons_self)

/-! ## Views of one kind -/

section Views

variable {β : Type} {view : Problem → Option β} (hline : ∀ line text, view (.ignoredLine line text) = none)
include hline

/-- A view that shows nothing of lines shows nothing of the ignored ones. -/
theorem filterMap_ignored (p : Program) :
    (p.ignored.map fun (line, text) => Problem.ignoredLine line text).filterMap view = [] := by
  rw [List.filterMap_eq_nil_iff]
  intro q hq
  obtain ⟨⟨line, text⟩, -, rfl⟩ := List.mem_map.1 hq
  exact hline line text

theorem filterMap_problems_of_states (hrule : ∀ n state symbol, view (.shadowedRule n state symbol) = none) :
    p.problems.filterMap view = p.stateProblems.filterMap view := by
  have hrules : (shadowedFrom 1 [] p.rules).filterMap view = [] := by
    rw [List.filterMap_eq_nil_iff]
    intro q hq
    obtain ⟨m, state, symbol, rfl⟩ := exists_of_mem_shadowedFrom hq
    exact hrule m state symbol
  rw [problems, List.filterMap_append, List.filterMap_append, filterMap_ignored hline, hrules]
  rfl

theorem filterMap_problems_of_rules (hstart : ∀ s, view (.invalidStartState s) = none)
    (hstates : ∀ states, view (.unreachableStates states) = none) :
    p.problems.filterMap view = (shadowedFrom 1 [] p.rules).filterMap view := by
  have hrest : p.stateProblems.filterMap view = [] := by
    by_cases h : p.Starts
    · rw [stateProblems_of_starts h]
      split
      · rfl
      · simp [hstates]
    · simp [stateProblems_of_not_starts h, hstart]
  rw [problems, List.filterMap_append, List.filterMap_append, filterMap_ignored hline, hrest,
    List.append_nil, List.nil_append]

end Views

end TapeMachines.Turing.Program
