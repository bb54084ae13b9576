import TapeMachines.Analysis.Problem
import TapeMachines.Analysis.Walk
import TapeMachines.Turing.Program
/-!
# Problems of a Turing program

The ignored lines come first, then the rules that an earlier rule shadows. If no rule is for the
start state that is the last problem; otherwise the states with rules that no path of rules from the
start state leads to are reported together, in order and each once.
-/

namespace TapeMachines.Turing.Program

open Analysis

def successors (p : Program) (state : String) : List String :=
  (p.rules.filter fun r => r.state = state).map (·.next)

/-- The states, joined by the rules: closed, since every successor is some rule's next state. -/
def graph (p : Program) : Graph String where
  next := p.successors
  nodes := startState :: p.rules.map (·.next)
  closed _ _ b hb := by
    obtain ⟨r, hr, rfl⟩ := List.mem_map.1 hb
    exact List.mem_cons_of_mem _ (List.mem_map_of_mem (List.mem_filter.1 hr).1)

/-- The states that some path of rules leads to, the start state included. -/
def reachable (p : Program) : List String := (p.graph.walk startState List.mem_cons_self).visited

/-- The rules after which an `earlier` one has the same state and symbol, with their positions. -/
def shadowedFrom (n : Nat) (earlier : List (String × Char)) : List Rule → List Problem
  | [] => []
  | r :: rules =>
    if (r.state, r.read) ∈ earlier then
      .shadowedRule n r.state r.read :: shadowedFrom (n + 1) earlier rules
    else shadowedFrom (n + 1) ((r.state, r.read) :: earlier) rules

def insertState (s : String) : List String → List String
  | [] => [s]
  | t :: ts => if s < t then s :: t :: ts else if s = t then t :: ts else t :: insertState s ts

/-- The states in the order of their characters' code points, each once. -/
def sortStates (states : List String) : List String := states.foldr insertState []

def unreachableStates (p : Program) : List String :=
  let reached := p.reachable
  sortStates ((p.rules.map (·.state)).filter (· ∉ reached))

def stateProblems (p : Program) : List Problem :=
  if p.rules.all fun r => r.state ≠ startState then [.invalidStartState startState]
  else if p.unreachableStates = [] then []
  else [.unreachableStates p.unreachableStates]

def problems (p : Program) : List Problem :=
  p.ignored.map (fun (line, text) => .ignoredLine line text) ++ shadowedFrom 1 [] p.rules ++
    p.stateProblems

end TapeMachines.Turing.Program
