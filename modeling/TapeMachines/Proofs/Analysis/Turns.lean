import Mathlib.Algebra.BigOperators.Group.Finset.Basic
import TapeMachines.Analysis.Post
import TapeMachines.Analysis.Turing
import TapeMachines.Proofs.Analysis.Walk
/-!
# How a walk ends

A walk is a loop that takes one node from the queue at every turn (`Loop.turn`) and knows nothing of a set that holds
all the nodes. A node may wait in the queue many times over, so neither the queue's length nor the number of nodes left
to visit measures what there is to do. What does is `Underway.paid`: every node ever queued is the start, or was put
there by an edge out of a visited node, and no node is visited twice. So the loop takes one turn more than there are
edges out of the nodes that it visits. Main statement: `walks_end_with_closure`.
-/

namespace TapeMachines.Analysis

variable {α : Type}

/-- Some finite set holds the start, and with every node its successors. -/
def Bounded (next : α → List α) (start : α) : Prop :=
  ∃ nodes : Finset α, start ∈ nodes ∧ ∀ a ∈ nodes, ∀ b ∈ next a, b ∈ nodes

/-! ## The loop -/

structure Loop (α : Type) where
  queue : List α
  /-- The nodes visited, last one first. -/
  visited : List α
  deriving DecidableEq

variable [DecidableEq α]

namespace Loop

/-- The first node of the queue is taken. If it is new, it is visited and its successors queue up behind the others. -/
def turn (next : α → List α) (l : Loop α) : Loop α :=
  match l.queue with
  | [] => l
  | a :: rest => if a ∈ l.visited then ⟨rest, l.visited⟩ else ⟨rest ++ next a, a :: l.visited⟩

/-- The loop after `n` turns, begun with the start alone in the queue. -/
def after (next : α → List α) (start : α) (n : Nat) : Loop α := (turn next)^[n] ⟨[start], []⟩

variable {next : α → List α} {start a : α} {rest visited : List α} {n : Nat}

theorem turn_skip (h : a ∈ visited) : turn next ⟨a :: rest, visited⟩ = ⟨rest, visited⟩ := if_pos h

theorem turn_visit (h : a ∉ visited) : turn next ⟨a :: rest, visited⟩ = ⟨rest ++ next a, a :: visited⟩ := if_neg h

theorem after_succ (next : α → List α) (start : α) (n : Nat) :
    after next start (n + 1) = turn next (after next start n) :=
  Function.iterate_succ_apply' _ _ _

end Loop

/-! ## A walk underway -/

variable {next : α → List α} {start : α}

/-- The walk `w`, with this queue, has come from its start by the turns that it counted. -/
structure Underway (next : α → List α) (start : α) (queue : List α) (w : Walk α) : Prop where
  turns : Loop.after next start w.taken = ⟨queue, w.visited⟩
  /-- No turn was idle. -/
  busy : ∀ n < w.taken, (Loop.after next start n).queue ≠ []
  once : w.visited.Nodup
  /-- A turn is paid for, and so is a node that waits for one, by the start or by an edge out of a visited node. -/
  paid : w.taken + queue.length = 1 + (w.visited.flatMap next).length

namespace Underway

variable {a : α} {queue rest : List α} {w w' : Walk α}

theorem begun (next : α → List α) (start : α) : Underway next start [start] ⟨[], 0⟩ where
  turns := rfl
  busy n hn := absurd hn n.not_lt_zero
  once := List.nodup_nil
  paid := rfl

/-- A turn more from a queue that is not empty was not idle either. -/
theorem busy_succ (h : Underway next start (a :: rest) w) :
    ∀ n < w.taken + 1, (Loop.after next start n).queue ≠ [] := by
  intro n hn
  rcases Nat.lt_succ_iff_lt_or_eq.1 hn with hn | rfl
  · exact h.busy n hn
  · rw [h.turns]
    exact List.cons_ne_nil a rest

theorem skip (h : Underway next start (a :: rest) w) (ha : a ∈ w.visited) :
    Underway next start rest ⟨w.visited, w.taken + 1⟩ where
  turns := by rw [Loop.after_succ, h.turns, Loop.turn_skip ha]
  busy := h.busy_succ
  once := h.once
  paid := by
    have hpaid := h.paid
    rw [List.length_cons] at hpaid
    show w.taken + 1 + rest.length = 1 + (w.visited.flatMap next).length
    omega

theorem visit (h : Underway next start (a :: rest) w) (ha : a ∉ w.visited) :
    Underway next start (rest ++ next a) ⟨a :: w.visited, w.taken + 1⟩ where
  turns := by rw [Loop.after_succ, h.turns, Loop.turn_visit ha]
  busy := h.busy_succ
  once := List.nodup_cons.2 ⟨ha, h.once⟩
  paid := by
    have hpaid := h.paid
    rw [List.length_cons] at hpaid
    -- The node that the turn took was paid for; the new ones are, by the edges out of it.
    rw [List.length_append, List.flatMap_cons, List.length_append]
    show w.taken + 1 + (rest.length + (next a).length) = _
    omega

/-- The turns of the loop settle how it ends, whatever set the nodes were known to lie in. -/
theorem ended_unique (h : Underway next start [] w) (h' : Underway next start [] w') : w = w' := by
  have htaken : w.taken = w'.taken := by
    rcases Nat.lt_trichotomy w.taken w'.taken with hlt | heq | hgt
    · exact absurd (congrArg Loop.queue h.turns) (h'.busy _ hlt)
    · exact heq
    · exact absurd (congrArg Loop.queue h'.turns) (h.busy _ hgt)
  have hvisited : w.visited = w'.visited := by
    have hturns := h'.turns
    rw [← htaken, h.turns] at hturns
    exact congrArg Loop.visited hturns
  cases w
  cases w'
  subst htaken hvisited
  rfl

theorem taken_eq (h : Underway next start [] w) : w.taken = 1 + ∑ a ∈ w.visited.toFinset, (next a).length := by
  rw [List.sum_toFinset _ h.once, ← List.length_flatMap]
  exact h.paid

end Underway

namespace Graph

theorem underway_walk (g : Graph α) (h : start ∈ g.nodes) : Underway g.next start [] (g.walk start h) :=
  walk_inv (fun ha hw => hw.skip ha) (fun ha hw => hw.visit ha) (.begun g.next start)

theorem bounded (g : Graph α) (h : start ∈ g.nodes) : Bounded g.next start := by
  refine ⟨g.nodes.toFinset, List.mem_toFinset.2 h, ?_⟩
  simpa only [List.mem_toFinset] using g.closed

end Graph

omit [DecidableEq α] in
theorem Bounded.exists_graph (h : Bounded next start) : ∃ g : Graph α, g.next = next ∧ start ∈ g.nodes := by
  obtain ⟨nodes, hstart, hclosed⟩ := h
  refine ⟨⟨next, nodes.toList, ?_⟩, rfl, Finset.mem_toList.2 hstart⟩
  simpa only [Finset.mem_toList] using hclosed

/-! ## Main theorem -/

/-- If some finite set holds the start and the successors of all its nodes, the loop ends: after some number of turns
the queue is empty, and never before. This number is one more than the successors, repetitions counted, of all the
nodes that a path from the start leads to; these nodes have been visited, each once, and no others. The walk in any
graph with these successors visits the same nodes in as many turns. Such a set there is for the lines of every Post
program and for the states of every Turing program, and those taken for reachable are those that a path leads to. -/
theorem walks_end_with_closure :
    (∀ {α : Type} [DecidableEq α] (next : α → List α) (start : α), Bounded next start →
      ∃ (w : Walk α) (reached : Finset α),
        Loop.after next start w.taken = ⟨[], w.visited⟩ ∧
        (∀ n < w.taken, (Loop.after next start n).queue ≠ []) ∧
        w.taken = 1 + ∑ a ∈ reached, (next a).length ∧
        (∀ a, a ∈ reached ↔ Relation.ReflTransGen (fun a b => b ∈ next a) start a) ∧
        (∀ a, a ∈ w.visited ↔ a ∈ reached) ∧ w.visited.Nodup ∧
        ∀ (g : Graph α) (h : start ∈ g.nodes), g.next = next → g.walk start h = w) ∧
    (∀ p : Post.Program, Bounded p.successors Post.firstLine ∧
      ∀ line, line ∈ p.reachable ↔ Relation.ReflTransGen (fun a b => b ∈ p.successors a) Post.firstLine line) ∧
    ∀ p : Turing.Program, Bounded p.successors Turing.startState ∧
      ∀ s, s ∈ p.reachable ↔ Relation.ReflTransGen (fun a b => b ∈ p.successors a) Turing.startState s := by
  refine ⟨?walk, fun p => ⟨?lines, ?reachedLines⟩, fun p => ⟨?states, ?reachedStates⟩⟩
  case walk =>
    intro α _ next start hbounded
    obtain ⟨g, rfl, hstart⟩ := hbounded.exists_graph
    have hw := g.underway_walk hstart
    refine ⟨g.walk start hstart, (g.walk start hstart).visited.toFinset, hw.turns, hw.busy, hw.taken_eq, ?_, ?_,
      hw.once, ?_⟩
    · intro a
      rw [List.mem_toFinset]
      exact g.mem_walk_iff
    · intro a
      exact List.mem_toFinset.symm
    · intro g' hstart' hnext
      have hw' := g'.underway_walk hstart'
      rw [hnext] at hw'
      exact hw'.ended_unique hw
  case lines => exact p.graph.bounded List.mem_cons_self
  case reachedLines => exact fun _ => p.graph.mem_walk_iff
  case states => exact p.graph.bounded List.mem_cons_self
  case reachedStates => exact fun _ => p.graph.mem_walk_iff

/-- Nodes 0, 1 and 2 in a cycle, 1 with an edge to itself, 0 with two edges to 1, and a node that none of them leads
to. -/
def tangle : Graph Nat where
  next
    | 0 => [1, 1, 2]
    | 1 => [1, 0, 2]
    | 2 => [0]
    | _ => [2]
  nodes := [0, 1, 2, 3]
  closed := by decide

theorem walks_end_with_closure_in_tangle :
    Bounded tangle.next 0 ∧ tangle.walk 0 (by decide) = ⟨[2, 1, 0], 8⟩ ∧
      Loop.after tangle.next 0 8 = ⟨[], [2, 1, 0]⟩ ∧ (Loop.after tangle.next 0 7).queue ≠ [] ∧
      ∀ a, Relation.ReflTransGen (fun a b => b ∈ tangle.next a) 0 a ↔ a ∈ [2, 1, 0] := by
  have hbounded : Bounded tangle.next 0 := ⟨{0, 1, 2}, by decide, by decide⟩
  have hwalk : tangle.walk 0 (by decide) = ⟨[2, 1, 0], 8⟩ := by cbv
  obtain ⟨w, reached, hends, hbusy, -, hpath, hvisited, -, hgraph⟩ := walks_end_with_closure.1 tangle.next 0 hbounded
  obtain rfl : ⟨[2, 1, 0], 8⟩ = w := hwalk.symm.trans (hgraph tangle (by decide) rfl)
  refine ⟨hbounded, hwalk, hends, hbusy 7 (by decide), ?_⟩
  intro a
  rw [← hpath, ← hvisited]

end TapeMachines.Analysis
