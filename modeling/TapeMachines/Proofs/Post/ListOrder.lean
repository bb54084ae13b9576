import TapeMachines.Post.Automaton
import TapeMachines.Proofs.Exchange
import TapeMachines.Proofs.Post.Lookup
/-!
# The order of instructions

A line is looked up at the place it has in a listing without gaps, and then from the front of the list. So where a
number is repeated, the instruction in its place is found before an earlier one (`find?_eq_some_iff_inPlace`). Where
none is, there is nothing to choose: the first instruction of a line is the only one (`isFirst_iff`), in whatever
order the list is put. Main statement: `lookup_ignores_order`.
-/

namespace TapeMachines.Post.Program

variable {p q : Program} {n : Nat} {i : Instruction}

/-- `i` has the number `n` and is the `n`-th instruction of the list. -/
def InPlace (p : Program) (n : Nat) (i : Instruction) : Prop :=
  i.line = n ∧ ∃ k, k + 1 = n ∧ p.instructions[k]? = some i

/-- `i` has the number `n`, and no instruction before it in the list has. -/
def IsFirst (p : Program) (n : Nat) (i : Instruction) : Prop :=
  i.line = n ∧ ∃ before after, p.instructions = before ++ i :: after ∧ ∀ j ∈ before, j.line ≠ n

/-! ## The place and the scan -/

theorem atIndex?_eq_some_iff : p.atIndex? n = some i ↔ p.InPlace n i := by
  unfold atIndex? InPlace
  cases n with
  | zero => simp
  | succ k => simp [Option.filter_eq_some_iff, and_comm]

theorem scan_eq_some_iff : p.instructions.find? (·.line = n) = some i ↔ p.IsFirst n i := by
  rw [List.find?_eq_some_iff_append]
  simp [IsFirst]

theorem find?_eq_some_iff_inPlace :
    p.find? n = some i ↔ p.InPlace n i ∨ (∀ j, ¬p.InPlace n j) ∧ p.IsFirst n i := by
  rw [find?, Option.or_eq_some_iff, scan_eq_some_iff, Option.eq_none_iff_forall_ne_some]
  simp only [ne_eq, atIndex?_eq_some_iff]

/-! ## Where no number is repeated -/

theorem isFirst_iff (hp : p.DistinctLines) : p.IsFirst n i ↔ i ∈ p.instructions ∧ i.line = n := by
  constructor
  · rintro ⟨hn, before, after, hsplit, -⟩
    exact ⟨by simp [hsplit], hn⟩
  · rintro ⟨hi, hn⟩
    obtain ⟨before, after, hsplit⟩ := List.append_of_mem hi
    refine ⟨hn, before, after, hsplit, ?_⟩
    -- The lines before that of `i` are others, as no line is repeated.
    rw [DistinctLines, hsplit, List.map_append, List.map_cons, List.nodup_append] at hp
    obtain ⟨-, -, hother⟩ := hp
    intro j hj hline
    exact hother j.line (List.mem_map_of_mem hj) i.line List.mem_cons_self (hline.trans hn.symm)

theorem order_of_perm (hp : p.DistinctLines) (h : q.instructions.Perm p.instructions) : q.order = p.order := by
  funext line read
  rw [order, order, find?_of_perm hp h]

theorem alike_of_perm (hp : p.DistinctLines) (h : q.instructions.Perm p.instructions) :
    p.automaton.Alike q.automaton := by
  have hunit : q.automaton = p.automaton := by
    rw [automaton, automaton, order_of_perm hp h]
  rw [hunit]
  exact Automaton.Alike.refl _

/-! ## Main theorem -/

/-- A look-up finds an instruction of the line if there is one: the one in its place if this has the number, and else
the first in the list that has it. Where no number is repeated it finds the first, and the same one in every order of
the list, so that no calls tell two orders apart. -/
theorem lookup_ignores_order (p : Program) :
    (∀ n, ((p.find? n).isSome = true ↔ ∃ i ∈ p.instructions, i.line = n) ∧
      (∀ i, p.find? n = some i → i.line = n) ∧
      ∀ i, p.find? n = some i ↔ p.InPlace n i ∨ (∀ j, ¬p.InPlace n j) ∧ p.IsFirst n i) ∧
    (p.DistinctLines →
      (∀ n i, p.find? n = some i ↔ p.IsFirst n i) ∧
      ∀ q : Program, q.instructions.Perm p.instructions →
        (∀ n, q.find? n = p.find? n) ∧ p.automaton.Alike q.automaton) := by
  refine ⟨?_, ?_⟩
  · exact fun n => ⟨find?_isSome_iff, fun i => line_of_find?, fun i => find?_eq_some_iff_inPlace⟩
  · intro hp
    refine ⟨?_, ?_⟩
    · intro n i
      rw [find?_eq_some_iff hp, isFirst_iff hp]
    · exact fun q h => ⟨find?_of_perm hp h, alike_of_perm hp h⟩

/-- Of two instructions of line 2 the one in its place, behind the other; and a program that is listed backwards. -/
theorem lookup_ignores_order_backwards :
    let twice : Program := ⟨[⟨2, "!", .halt⟩, ⟨2, "→ 2", .perform .right 2⟩]⟩
    let p : Program := ⟨[⟨1, "1 3", .perform .mark 3⟩, ⟨3, "!", .halt⟩]⟩
    let q : Program := ⟨[⟨3, "!", .halt⟩, ⟨1, "1 3", .perform .mark 3⟩]⟩
    twice.find? 2 = some ⟨2, "→ 2", .perform .right 2⟩ ∧ twice.IsFirst 2 ⟨2, "!", .halt⟩ ∧
      p.DistinctLines ∧ q.instructions.Perm p.instructions ∧
      p.IsFirst 3 ⟨3, "!", .halt⟩ ∧ (∀ n, q.find? n = p.find? n) ∧ p.automaton.Alike q.automaton := by
  intro twice p q
  have hplace : twice.InPlace 2 ⟨2, "→ 2", .perform .right 2⟩ := ⟨rfl, 1, rfl, rfl⟩
  have hfirst : twice.IsFirst 2 ⟨2, "!", .halt⟩ := ⟨rfl, [], _, rfl, List.forall_mem_nil _⟩
  obtain ⟨htwice, -⟩ := lookup_ignores_order twice
  have hp : p.DistinctLines := by decide
  have hperm : q.instructions.Perm p.instructions := List.Perm.swap _ _ _
  obtain ⟨hscan, horder⟩ := (lookup_ignores_order p).2 hp
  exact ⟨((htwice 2).2.2 _).2 (.inl hplace), hfirst, hp, hperm, (hscan 3 _).1 rfl, horder q hperm⟩

end TapeMachines.Post.Program
