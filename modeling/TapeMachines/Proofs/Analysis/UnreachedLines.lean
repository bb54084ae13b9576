import TapeMachines.Post.Automaton
import TapeMachines.Proofs.Analysis.Post
import TapeMachines.Proofs.Exchange
/-!
# Lines that are never reached

`Reached` says which lines of a Post program a path of targets leads to. Where no line is repeated,
the lines reported as unreachable are exactly the others (`reported_lines`); control never comes to
one of them (`confined`), and the program without them, `pruned`, finds the same instruction at every
reached line (`find?_pruned`). Main statement: `unreachable_lines_prunable`.
-/

namespace TapeMachines

namespace Analysis.Problem

/-- The lines that a problem reports as unreachable. -/
def unreachedLines? : Problem → Option (List Nat)
  | .unreachableLines ls => some ls
  | _ => none

/-- The line of the instruction that a problem was found in. -/
def line? : Problem → Option Nat
  | .malformedInstruction line _ | .undefinedTarget line _ => some line
  | _ => none

end Analysis.Problem

namespace Post.Program

open Analysis

variable {p : Program}

/-! ## Paths of targets -/

/-- Some instruction of line `a` has line `b` as a target. -/
def Jumps (p : Program) (a b : Nat) : Prop := ∃ i ∈ p.instructions, i.line = a ∧ b ∈ i.command.targets

/-- A path of targets, maybe of none, leads from line 1 to the line. -/
def Reached (p : Program) : Nat → Prop := Relation.ReflTransGen p.Jumps 1

theorem mem_successors_iff (hp : p.DistinctLines) {a b : Nat} : b ∈ p.successors a ↔ p.Jumps a b := by
  constructor
  · intro h
    unfold successors at h
    split at h
    · rename_i i hi
      exact ⟨i, mem_of_find? hi, line_of_find? hi, h⟩
    · cases h
  · rintro ⟨i, hi, hl, hb⟩
    rw [successors, (find?_eq_some_iff hp).2 ⟨hi, hl⟩]
    exact hb

theorem mem_reachable_iff (hp : p.DistinctLines) {line : Nat} : line ∈ p.reachable ↔ p.Reached line :=
  p.graph.mem_walk_iff_of_edges fun _ _ => mem_successors_iff hp

/-! ## What is reported -/

open Classical in
/-- The lines that no path of targets leads to, in the order of the listing. -/
noncomputable def unreached (p : Program) : List Nat :=
  (p.instructions.map (·.line)).filter fun line => ¬p.Reached line

/-- The lines that are reported as unreachable. -/
def deadLines (p : Program) : List Nat := (p.problems.filterMap Problem.unreachedLines?).flatten

theorem line?_of_mem_instructionProblems {i : Instruction} {q : Problem} (h : q ∈ p.instructionProblems i) :
    q.line? = some i.line := by
  rcases mem_instructionProblems_iff.1 h with ⟨-, rfl⟩ | ⟨target, -, -, rfl⟩ <;> rfl

theorem unreachedLines?_of_mem_instructionProblems {i : Instruction} {q : Problem}
    (h : q ∈ p.instructionProblems i) : q.unreachedLines? = none := by
  rcases mem_instructionProblems_iff.1 h with ⟨-, rfl⟩ | ⟨target, -, -, rfl⟩ <;> rfl

/-- One report of all the unreachable lines, or none if there are none. -/
theorem filterMap_unreachedLines? (p : Program) :
    p.problems.filterMap Problem.unreachedLines? =
      if p.unreachableLines = [] then [] else [p.unreachableLines] := by
  have hinstr : (p.instructions.flatMap p.instructionProblems).filterMap Problem.unreachedLines? = [] := by
    rw [List.filterMap_eq_nil_iff]
    intro q hq
    obtain ⟨i, -, hi⟩ := List.mem_flatMap.1 hq
    exact unreachedLines?_of_mem_instructionProblems hi
  rw [problems, List.filterMap_append, List.filterMap_append, hinstr]
  by_cases hu : p.unreachableLines = [] <;> by_cases hh : p.instructions.any fun i => i.command = .halt <;>
    simp [hu, hh, Problem.unreachedLines?]

theorem deadLines_eq (p : Program) : p.deadLines = p.unreachableLines := by
  rw [deadLines, filterMap_unreachedLines?]
  split <;> simp_all

theorem unreachableLines_eq (hp : p.DistinctLines) : p.unreachableLines = p.unreached := by
  rw [unreachableLines, unreached]
  refine List.filter_congr ?_
  intro line _
  simp [mem_reachable_iff hp]

theorem not_mem_deadLines_iff (hp : p.DistinctLines) {i : Instruction} (hi : i ∈ p.instructions) :
    i.line ∉ p.deadLines ↔ p.Reached i.line := by
  have hline : i.line ∈ p.instructions.map (·.line) := List.mem_map_of_mem hi
  rw [deadLines_eq, unreachableLines_eq hp, unreached]
  simp [hline]

theorem not_mem_deadLines_of_reached (hp : p.DistinctLines) {line : Nat} (h : p.Reached line) :
    line ∉ p.deadLines := by
  rw [deadLines_eq, unreachableLines_eq hp, unreached]
  simp [h]

theorem filter_instructionProblems (keep : Nat → Bool) (is : List Instruction) :
    (is.flatMap p.instructionProblems).filter (fun q => q.line?.any keep) =
      (is.filter fun i => keep i.line).flatMap p.instructionProblems := by
  induction is with
  | nil => rfl
  | cons i is ih =>
    rw [List.flatMap_cons, List.filter_append, ih, List.filter_cons]
    split
    · rename_i hk
      rw [List.flatMap_cons, List.filter_eq_self.2]
      intro q hq
      rw [line?_of_mem_instructionProblems hq]
      exact hk
    · rename_i hk
      rw [List.filter_eq_nil_iff.2, List.nil_append]
      intro q hq
      rw [line?_of_mem_instructionProblems hq]
      exact hk

/-- The problems found in instructions, for the lines that pass a test. -/
theorem filter_line? (p : Program) (keep : Nat → Bool) :
    p.problems.filter (fun q => q.line?.any keep) =
      (p.instructions.filter fun i => keep i.line).flatMap p.instructionProblems := by
  rw [problems, List.filter_append, List.filter_append, filter_instructionProblems]
  by_cases hu : p.unreachableLines = [] <;> by_cases hh : p.instructions.any fun i => i.command = .halt <;>
    simp [hu, hh, Problem.line?]

/-! ## Control never leaves the reached lines -/

theorem confined (p : Program) : p.automaton.Confined p.Reached where
  initial := .refl
  next := by
    intro line next read text write move hr ho
    obtain ⟨i, hi, -, ht⟩ := order_eq_go ho
    exact hr.tail ⟨i, mem_of_find? hi, line_of_find? hi, ht⟩

/-! ## The program without them -/

/-- The program without the instructions whose lines are reported as unreachable. -/
def pruned (p : Program) : Program := ⟨p.instructions.filter fun i => i.line ∉ p.deadLines⟩

theorem mem_pruned_iff (hp : p.DistinctLines) {i : Instruction} :
    i ∈ p.pruned.instructions ↔ i ∈ p.instructions ∧ p.Reached i.line := by
  rw [pruned, List.mem_filter, decide_eq_true_eq]
  exact and_congr_right (not_mem_deadLines_iff hp)

theorem distinctLines_pruned (hp : p.DistinctLines) : p.pruned.DistinctLines :=
  (List.filter_sublist.map _).nodup hp

/-- Without the lines, other instructions stand at other places; the look-up finds them all the same. -/
theorem find?_pruned (hp : p.DistinctLines) {line : Nat} (h : p.Reached line) :
    p.pruned.find? line = p.find? line := by
  ext i
  rw [find?_eq_some_iff (distinctLines_pruned hp), find?_eq_some_iff hp, mem_pruned_iff hp]
  constructor
  · rintro ⟨⟨hi, -⟩, hl⟩
    exact ⟨hi, hl⟩
  · rintro ⟨hi, rfl⟩
    exact ⟨⟨hi, h⟩, rfl⟩

theorem alike_pruned (hp : p.DistinctLines) : p.automaton.Alike p.pruned.automaton := by
  refine Automaton.alike_of_confined p.confined ?_
  intro line hr
  funext read
  show p.pruned.order line read = p.order line read
  rw [order, order, find?_pruned hp hr]

theorem reached_pruned (hp : p.DistinctLines) {line : Nat} (h : p.Reached line) : p.pruned.Reached line := by
  induction h with
  | refl => exact .refl
  | tail hr hj ih =>
    obtain ⟨i, hi, rfl, ht⟩ := hj
    exact ih.tail ⟨i, (mem_pruned_iff hp).2 ⟨hi, hr⟩, rfl, ht⟩

theorem unreachableLines_pruned (hp : p.DistinctLines) : p.pruned.unreachableLines = [] := by
  rw [unreachableLines_eq (distinctLines_pruned hp), unreached, List.filter_eq_nil_iff]
  intro line hline
  obtain ⟨i, hi, rfl⟩ := List.mem_map.1 hline
  have hr := reached_pruned hp ((mem_pruned_iff hp).1 hi).2
  simp [hr]

/-- The targets of an instruction that is kept are missing from both programs or from none. -/
theorem instructionProblems_pruned (hp : p.DistinctLines) {i : Instruction} (hi : i ∈ p.pruned.instructions) :
    p.pruned.instructionProblems i = p.instructionProblems i := by
  obtain ⟨hi, hr⟩ := (mem_pruned_iff hp).1 hi
  rw [instructionProblems, instructionProblems]
  -- Only the look-up of targets differs, and the targets of a reached line are reached.
  congr 2
  refine List.filter_congr ?_
  intro target ht
  rw [find?_pruned hp (hr.tail ⟨i, hi, rfl, ht⟩)]

theorem filter_line?_pruned (hp : p.DistinctLines) :
    p.pruned.problems.filter (fun q => q.line?.isSome) =
      p.problems.filter fun q => q.line?.any fun line => line ∉ p.deadLines := by
  have hall : ∀ q : Problem, q.line?.isSome = q.line?.any fun _ => true := by
    intro q
    cases q.line? <;> rfl
  simp only [hall]
  rw [filter_line?, filter_line?, List.filter_true]
  exact List.flatMap_congr fun i hi => instructionProblems_pruned hp hi

/-! ## Main theorem -/

/-- Of a program that repeats no line, the lines reported as unreachable are those that no path of
targets leads to, in the order of the listing; there is no such report if there are none. On every
input of zeros and ones control never comes to one of them. The program without their instructions
cannot be told from it by any calls; it has no such report, and those problems of the instructions
that are left, in the same order. -/
theorem unreachable_lines_prunable (p : Program) (hp : p.DistinctLines) :
    p.problems.filterMap Problem.unreachedLines? = (if p.unreached = [] then [] else [p.unreached]) ∧
    (∀ input : String, (∀ c ∈ input.toList, c = '0' ∨ c = '1') → ∃ m, p.automaton.start input = .ok m ∧
      ∀ calls, (m.afterAll calls).control ∉ p.deadLines) ∧
    p.automaton.Alike p.pruned.automaton ∧
    p.pruned.problems.filterMap Problem.unreachedLines? = [] ∧
    p.pruned.problems.filter (fun q => q.line?.isSome) =
      p.problems.filter fun q => q.line?.any fun line => line ∉ p.deadLines := by
  refine ⟨?report, ?control, alike_pruned hp, ?pruned, filter_line?_pruned hp⟩
  case report => rw [filterMap_unreachedLines?, unreachableLines_eq hp]
  case control =>
    intro input hi
    refine ⟨p.automaton.on input.toList, Automaton.start_eq_ok_iff.2 ⟨?_, rfl⟩, ?_⟩
    · intro c hc
      rcases hi c hc with rfl | rfl <;> rfl
    · intro calls
      exact not_mem_deadLines_of_reached hp (Machine.confined_afterAll p.confined input.toList calls)
  case pruned => rw [filterMap_unreachedLines?, unreachableLines_pruned hp, if_pos rfl]

/-- Line 9 is never reached, and line 2 stands at the place for it only as long as line 9 is there. -/
def outOfPlace : Program :=
  ⟨[⟨9, "!", .halt⟩, ⟨2, "? 5 2", .branch 5 2⟩, ⟨1, "→ 2", .perform .right 2⟩]⟩

theorem unreachable_lines_prunable_out_of_place :
    outOfPlace.DistinctLines ∧ outOfPlace.deadLines = [9] ∧
      (∀ input : String, (∀ c ∈ input.toList, c = '0' ∨ c = '1') →
        ∃ m, outOfPlace.automaton.start input = .ok m ∧ ∀ calls, (m.afterAll calls).control ∉ [9]) ∧
      outOfPlace.automaton.Alike outOfPlace.pruned.automaton ∧
      outOfPlace.pruned.problems.filterMap Problem.unreachedLines? = [] := by
  have hp : outOfPlace.DistinctLines := by decide
  have hd : outOfPlace.deadLines = [9] := by
    rw [deadLines_eq]
    cbv
  obtain ⟨-, hcontrol, halike, hpruned, -⟩ := unreachable_lines_prunable outOfPlace hp
  rw [hd] at hcontrol
  exact ⟨hp, hd, hcontrol, halike, hpruned⟩

end Post.Program

end TapeMachines
