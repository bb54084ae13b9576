import Mathlib.Logic.Relation
import TapeMachines.Analysis.Walk
/-!
# What a walk visits

A walk visits exactly the nodes to which a path leads from its start: `mem_walk_iff`. It invents none,
since a node is queued only as a successor of a visited one (`path_of_mem_walk`). It misses none,
since `Frontier` holds throughout, by which no edge leaves the visited nodes when the queue is empty.
Both are kept by every node taken from the queue, and so hold in the end (`walk_inv`).
-/

namespace TapeMachines.Analysis.Graph

variable {α : Type}

/-- A path of any number of edges, none included. -/
def Path (g : Graph α) : α → α → Prop := Relation.ReflTransGen fun a b => b ∈ g.next a

/-- A node that the walk has come upon: visited, or still in the queue. -/
def Met (queue visited : List α) (a : α) : Prop := a ∈ visited ∨ a ∈ queue

theorem Met.skip {a b : α} {rest visited : List α} (h : Met (a :: rest) visited b) (ha : a ∈ visited) :
    Met rest visited b := by
  rcases h with hv | hq
  · exact .inl hv
  · rcases List.mem_cons.1 hq with rfl | hq
    · exact .inl ha
    · exact .inr hq

theorem Met.visit {a b : α} {rest visited : List α} (h : Met (a :: rest) visited b) (more : List α) :
    Met (rest ++ more) (a :: visited) b := by
  rcases h with hv | hq
  · exact .inl (List.mem_cons_of_mem _ hv)
  · rcases List.mem_cons.1 hq with rfl | hq
    · exact .inl List.mem_cons_self
    · exact .inr (List.mem_append_left _ hq)

/-- An edge out of a visited node leads to a visited or a queued one. -/
def Frontier (g : Graph α) (queue visited : List α) : Prop :=
  ∀ a ∈ visited, ∀ b ∈ g.next a, Met queue visited b

theorem Frontier.skip {g : Graph α} {a : α} {rest visited : List α} (h : g.Frontier (a :: rest) visited)
    (ha : a ∈ visited) : g.Frontier rest visited := by
  intro c hc b hb
  exact (h c hc b hb).skip ha

theorem Frontier.visit {g : Graph α} {a : α} {rest visited : List α} (h : g.Frontier (a :: rest) visited) :
    g.Frontier (rest ++ g.next a) (a :: visited) := by
  intro c hc b hb
  rcases List.mem_cons.1 hc with rfl | hc
  · exact .inr (List.mem_append_right _ hb)
  · exact (h c hc b hb).visit (g.next a)

/-- A set of nodes that no edge leaves holds the end of every path from one of them. -/
theorem Frontier.mem_of_path {g : Graph α} {visited : List α} (h : g.Frontier [] visited) {a b : α}
    (ha : a ∈ visited) (hp : g.Path a b) : b ∈ visited := by
  induction hp with
  | refl => exact ha
  | tail _ hedge ih => simpa [Met] using h _ ih _ hedge

variable [DecidableEq α]

/-! ## What is kept throughout -/

section

variable {g : Graph α} {I : List α → Walk α → Prop}
  (skip : ∀ {a rest w}, a ∈ w.visited → I (a :: rest) w → I rest ⟨w.visited, w.taken + 1⟩)
  (visit : ∀ {a rest w}, a ∉ w.visited → I (a :: rest) w → I (rest ++ g.next a) ⟨a :: w.visited, w.taken + 1⟩)
include skip visit

theorem walkFrom_inv (queue : List α) (inside : ∀ a ∈ queue, a ∈ g.nodes) (w : Walk α) (h : I queue w) :
    I [] (g.walkFrom queue inside w) := by
  fun_induction walkFrom g queue inside w with
  | case1 => exact h
  | case2 w a rest inside hv _ ih => exact ih (skip hv h)
  | case3 w a rest inside hv _ ih => exact ih (visit hv h)

/-- What holds of the start alone, and is kept when a node is taken, visited before or not, holds of the whole walk. -/
theorem walk_inv {start : α} {h : start ∈ g.nodes} (h0 : I [start] ⟨[], 0⟩) : I [] (g.walk start h) :=
  walkFrom_inv skip visit [start] _ _ h0

end

/-! ## Nothing is invented -/

theorem path_of_mem_walk (g : Graph α) {a b : α} {ha : a ∈ g.nodes} (hb : b ∈ (g.walk a ha).visited) :
    g.Path a b := by
  refine walk_inv (I := fun queue w => ∀ b, Met queue w.visited b → g.Path a b) ?skip ?visit ?start b (.inl hb)
  case skip =>
    intro c rest w hv h b hb
    exact h b (hb.imp_right (List.mem_cons_of_mem c))
  case visit =>
    intro c rest w hv h b hb
    have hc : g.Path a c := h c (.inr List.mem_cons_self)
    rcases hb with hb | hb
    · rcases List.mem_cons.1 hb with rfl | hb
      · exact hc
      · exact h b (.inl hb)
    · rcases List.mem_append.1 hb with hb | hb
      · exact h b (.inr (List.mem_cons_of_mem c hb))
      · exact hc.tail hb
  case start =>
    intro b hb
    obtain rfl : b = a := by simpa [Met] using hb
    exact .refl

/-! ## Nothing is missed -/

theorem frontier_walk (g : Graph α) {a : α} {ha : a ∈ g.nodes} : g.Frontier [] (g.walk a ha).visited := by
  refine walk_inv (I := fun queue w => g.Frontier queue w.visited) (fun hv h => h.skip hv) (fun _ h => h.visit) ?_
  intro c hc
  cases hc

theorem start_mem_walk (g : Graph α) {a : α} {ha : a ∈ g.nodes} : a ∈ (g.walk a ha).visited := by
  have hmet : Met [] (g.walk a ha).visited a :=
    walk_inv (I := fun queue w => Met queue w.visited a) (fun hv h => h.skip hv) (fun _ h => h.visit _)
      (.inr List.mem_cons_self)
  simpa [Met] using hmet

theorem mem_walk_iff (g : Graph α) {a b : α} {ha : a ∈ g.nodes} :
    b ∈ (g.walk a ha).visited ↔ g.Path a b := by
  constructor
  · exact g.path_of_mem_walk
  · exact g.frontier_walk.mem_of_path g.start_mem_walk

/-- The same, with the edges given by a relation. -/
theorem mem_walk_iff_of_edges (g : Graph α) {R : α → α → Prop} (hR : ∀ a b, b ∈ g.next a ↔ R a b) {a b : α}
    {ha : a ∈ g.nodes} : b ∈ (g.walk a ha).visited ↔ Relation.ReflTransGen R a b := by
  have hedges : (fun a b => b ∈ g.next a) = R := by
    funext a b
    exact propext (hR a b)
  rw [mem_walk_iff, Path, hedges]

end TapeMachines.Analysis.Graph
