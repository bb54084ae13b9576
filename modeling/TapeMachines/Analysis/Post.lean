import TapeMachines.Analysis.Problem
import TapeMachines.Analysis.Walk
import TapeMachines.Post.Program
/-!
# Problems of a Post program

Each instruction is checked on its own, then the lines that no path of targets from line 1 leads to
are reported together, and last a program without a halt.
-/

namespace TapeMachines.Post.Program

open Analysis

/-- The lines a line may go on to; none if it is missing. -/
def successors (p : Program) (line : Nat) : List Nat :=
  match p.find? line with
  | some i => i.command.targets
  | none => []

theorem mem_targets_of_mem_successors {p : Program} {line next : Nat} (h : next ∈ p.successors line) :
    next ∈ p.instructions.flatMap fun i => i.command.targets := by
  unfold successors at h
  split at h
  · exact List.mem_flatMap.2 ⟨_, mem_of_find? (by assumption), h⟩
  · cases h

/-- The lines, joined by the targets: closed, since every successor is some instruction's target. -/
def graph (p : Program) : Graph Nat where
  next := p.successors
  nodes := firstLine :: p.instructions.flatMap fun i => i.command.targets
  closed _ _ _ hb := List.mem_cons_of_mem _ (mem_targets_of_mem_successors hb)

/-- The lines that some path of targets leads to, line 1 included. -/
def reachable (p : Program) : List Nat := (p.graph.walk firstLine List.mem_cons_self).visited

def instructionProblems (p : Program) (i : Instruction) : List Problem :=
  (if i.command = .malformed then [.malformedInstruction i.line i.text] else []) ++
    (i.command.targets.filter fun target => (p.find? target).isNone).map (.undefinedTarget i.line)

def unreachableLines (p : Program) : List Nat :=
  let reached := p.reachable
  (p.instructions.map (·.line)).filter (· ∉ reached)

def problems (p : Program) : List Problem :=
  p.instructions.flatMap p.instructionProblems ++
    (if p.unreachableLines = [] then [] else [.unreachableLines p.unreachableLines]) ++
    if p.instructions.any fun i => i.command = .halt then [] else [.missingHalt]

end TapeMachines.Post.Program
