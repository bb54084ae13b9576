import TapeMachines.Analysis.Post
import TapeMachines.Proofs.Analysis.Walk
import TapeMachines.Proofs.Post.Lookup
/-!
# What is reported of a Post program

`mem_problems_iff` is the condition under which each kind of problem is reported. From the kinds
together: `exists_firstLine_of_no_problems`, by which a program without problems has a line 1, since
without one no instruction could be reached.
-/

namespace TapeMachines.Post.Program

open Analysis

variable {p : Program}

theorem mem_instructionProblems_iff {i : Instruction} {q : Problem} :
    q ∈ p.instructionProblems i ↔
      i.command = .malformed ∧ q = .malformedInstruction i.line i.text ∨
        ∃ target ∈ i.command.targets, p.find? target = none ∧ q = .undefinedTarget i.line target := by
  rw [instructionProblems, List.mem_append, List.mem_map]
  refine or_congr (by simp [List.mem_ite_nil_right]) ?_
  simp only [List.mem_filter, Option.isNone_iff_eq_none, and_assoc, eq_comm (a := q)]

theorem mem_problems_iff {q : Problem} :
    q ∈ p.problems ↔
      (∃ i ∈ p.instructions, q ∈ p.instructionProblems i) ∨
        (p.unreachableLines ≠ [] ∧ q = .unreachableLines p.unreachableLines) ∨
        (∀ i ∈ p.instructions, i.command ≠ .halt) ∧ q = .missingHalt := by
  rw [problems, List.mem_append, List.mem_append, List.mem_flatMap, or_assoc]
  refine or_congr_right (or_congr ?_ ?_)
  · rw [List.mem_ite_nil_left, List.mem_singleton]
  · rw [List.mem_ite_nil_left, List.mem_singleton]
    simp

theorem malformedInstruction_mem_problems {i : Instruction} (hi : i ∈ p.instructions)
    (hc : i.command = .malformed) : .malformedInstruction i.line i.text ∈ p.problems :=
  mem_problems_iff.2 (.inl ⟨i, hi, mem_instructionProblems_iff.2 (.inl ⟨hc, rfl⟩)⟩)

theorem undefinedTarget_mem_problems {i : Instruction} {target : Nat} (hi : i ∈ p.instructions)
    (ht : target ∈ i.command.targets) (hf : p.find? target = none) :
    .undefinedTarget i.line target ∈ p.problems :=
  mem_problems_iff.2 (.inl ⟨i, hi, mem_instructionProblems_iff.2 (.inr ⟨target, ht, hf, rfl⟩)⟩)

theorem missingHalt_mem_problems_iff :
    .missingHalt ∈ p.problems ↔ ∀ i ∈ p.instructions, i.command ≠ .halt := by
  simp [mem_problems_iff, mem_instructionProblems_iff]

/-! ## A program without problems -/

theorem path_of_mem_reachable {line : Nat} (h : line ∈ p.reachable) : p.graph.Path firstLine line :=
  p.graph.path_of_mem_walk h

/-- From a missing line no path leads on. -/
theorem eq_of_path_of_missing {line next : Nat} (hf : p.find? line = none) (h : p.graph.Path line next) :
    next = line := by
  rcases h.cases_head with rfl | ⟨b, hb, -⟩
  · rfl
  · have hs : b ∈ p.successors line := hb
    rw [successors, hf] at hs
    cases hs

theorem exists_firstLine_of_no_problems (h : p.problems = []) : ∃ i ∈ p.instructions, i.line = 1 := by
  have hnot : ∀ q, q ∉ p.problems := by simp [h]
  -- There is an instruction, since there is a halt; and it is reached, since every one is.
  obtain ⟨i, hi, -⟩ : ∃ i ∈ p.instructions, i.command = .halt := by
    simpa using mt missingHalt_mem_problems_iff.2 (hnot .missingHalt)
  have hr : i.line ∈ p.reachable := by
    have hu : p.unreachableLines = [] := by
      by_contra hne
      exact hnot _ (mem_problems_iff.2 (.inr (.inl ⟨hne, rfl⟩)))
    have := List.filter_eq_nil_iff.1 hu i.line (List.mem_map_of_mem hi)
    simpa using this
  by_contra hno
  have hf : p.find? firstLine = none := find?_eq_none_iff.2 fun j hj hl => hno ⟨j, hj, hl⟩
  exact hno ⟨i, hi, eq_of_path_of_missing hf (path_of_mem_reachable hr)⟩

end TapeMachines.Post.Program
