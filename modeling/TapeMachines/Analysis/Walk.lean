/-!
# Walking a graph from one node

A breadth-first walk over a graph whose nodes, as far as the walk may reach, lie in a finite list.
It ends because every node is expanded at most once: either fewer nodes are left to visit, or the
queue gets shorter. Main definition: `Graph.walk`, with the nodes visited and the length of the walk.
-/

namespace TapeMachines.Analysis

/-- Successors that stay inside a finite list of nodes. -/
structure Graph (α : Type) where
  next : α → List α
  nodes : List α
  closed : ∀ a ∈ nodes, ∀ b ∈ next a, b ∈ nodes

structure Walk (α : Type) where
  /-- The nodes visited, last one first. -/
  visited : List α
  /-- How often a node was taken from the queue. -/
  taken : Nat

namespace Graph

variable {α : Type}

theorem filter_length_le {p q : α → Bool} (h : ∀ b, p b = true → q b = true) (l : List α) :
    (l.filter p).length ≤ (l.filter q).length := by
  rw [← List.countP_eq_length_filter, ← List.countP_eq_length_filter]
  exact List.countP_mono_left fun b _ => h b

theorem filter_length_lt {p q : α → Bool} {a : α} (h : ∀ b, p b = true → q b = true)
    (hp : p a = false) (hq : q a = true) {l : List α} (ha : a ∈ l) :
    (l.filter p).length < (l.filter q).length := by
  obtain ⟨s, t, rfl⟩ := List.append_of_mem ha
  simp only [List.filter_append, List.filter_cons, hp, hq, List.length_append, if_true,
    List.length_cons, Bool.false_eq_true, if_false]
  have hs := filter_length_le h s
  have ht := filter_length_le h t
  omega

variable [DecidableEq α]

/-- The nodes not yet visited. -/
def unvisited (g : Graph α) (visited : List α) : List α :=
  g.nodes.filter fun a => a ∉ visited

theorem unvisited_lt (g : Graph α) {visited : List α} {a : α} (hn : a ∈ g.nodes) (hv : a ∉ visited) :
    (g.unvisited (a :: visited)).length < (g.unvisited visited).length :=
  filter_length_lt (by simp) (by simp) (by simp [hv]) hn

def walkFrom (g : Graph α) (queue : List α) (inside : ∀ a ∈ queue, a ∈ g.nodes) (w : Walk α) : Walk α :=
  match queue, inside with
  | [], _ => w
  | a :: rest, inside =>
    if h : a ∈ w.visited then
      g.walkFrom rest (fun b hb => inside b (List.mem_cons_of_mem _ hb)) ⟨w.visited, w.taken + 1⟩
    else
      g.walkFrom (rest ++ g.next a)
        (fun b hb => (List.mem_append.1 hb).elim (fun hr => inside b (List.mem_cons_of_mem _ hr))
          (g.closed a (inside a List.mem_cons_self) b))
        ⟨a :: w.visited, w.taken + 1⟩
  termination_by ((g.unvisited w.visited).length, queue.length)
  decreasing_by
    · exact Prod.Lex.right _ (Nat.lt_succ_self _)
    · exact Prod.Lex.left _ _ (g.unvisited_lt (inside a List.mem_cons_self) h)

/-- The walk from one node of the graph. -/
def walk (g : Graph α) (start : α) (h : start ∈ g.nodes) : Walk α :=
  g.walkFrom [start] (by simpa using h) ⟨[], 0⟩

end Graph

end TapeMachines.Analysis
