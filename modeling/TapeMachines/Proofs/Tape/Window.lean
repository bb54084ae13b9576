import Mathlib.Data.Finset.Card
import Mathlib.Data.List.GetD
import TapeMachines.Proofs.Cells
/-!
# The visited window

The window of a tape reaches from `leftmost` to `rightmost`. It always holds the head, a move widens it to
the new head position and no further, and so does a rewind. What a tape renders is the window, cell by
cell (`render_eq_window`); beyond it every cell is blank, so that `nonblanks` counts all cells that are not
blank (`exists_nonblanks`).
-/

namespace TapeMachines.Tape

/-! ## The bounds after an operation -/

theorem leftmost_le_head (t : Tape) : t.leftmost ≤ t.head := by
  unfold leftmost
  omega

theorem head_le_rightmost (t : Tape) : t.head ≤ t.rightmost := by
  unfold rightmost
  omega

theorem leftmost_ofList (blank : Char) (seed : List Char) : (ofList blank seed).leftmost = 0 := by
  cases seed <;> rfl

theorem rightmost_ofList (blank : Char) (seed : List Char) :
    (ofList blank seed).rightmost = (seed.length - 1 : Nat) := by
  cases seed with
  | nil => rfl
  | cons c cs => exact Int.zero_add _

theorem leftmost_move (t : Tape) (d : Direction) : (t.move d).leftmost = min t.leftmost (t.head + d.offset) := by
  have hlength : t.left.tail.length = t.left.length - 1 := List.length_tail
  cases d with
  | left =>
    simp only [leftmost, move, hlength, Direction.offset]
    omega
  | right =>
    simp only [leftmost, move, List.length_cons, Direction.offset]
    omega
  | stay =>
    simp only [leftmost, move, Direction.offset]
    omega

theorem rightmost_move (t : Tape) (d : Direction) : (t.move d).rightmost = max t.rightmost (t.head + d.offset) := by
  have hlength : t.right.tail.length = t.right.length - 1 := List.length_tail
  cases d with
  | left =>
    simp only [rightmost, move, List.length_cons, Direction.offset]
    omega
  | right =>
    simp only [rightmost, move, hlength, Direction.offset]
    omega
  | stay =>
    simp only [rightmost, move, Direction.offset]
    omega

@[simp] theorem blank_moves (d : Direction) (n : Nat) (t : Tape) : (moves d n t).blank = t.blank := by
  induction n generalizing t with
  | zero => rfl
  | succ n ih => rw [moves, ih, blank_move]

@[simp] theorem get_moves (d : Direction) (n : Nat) (t : Tape) (p : Int) : (moves d n t).get p = t.get p := by
  induction n generalizing t with
  | zero => rfl
  | succ n ih => rw [moves, ih, get_move]

theorem head_moves (d : Direction) (n : Nat) (t : Tape) : (moves d n t).head = t.head + n * d.offset := by
  induction n generalizing t with
  | zero => simp [moves]
  | succ n ih =>
    rw [moves, ih, head_move, Int.natCast_succ, Int.add_mul]
    omega

theorem leftmost_moves (d : Direction) (n : Nat) (t : Tape) :
    (moves d n t).leftmost = min t.leftmost (t.head + n * d.offset) := by
  induction n generalizing t with
  | zero =>
    have h := t.leftmost_le_head
    simp only [moves]
    omega
  | succ n ih =>
    have h := t.leftmost_le_head
    rw [moves, ih, leftmost_move, head_move]
    cases d <;> simp only [Direction.offset] <;> omega

theorem rightmost_moves (d : Direction) (n : Nat) (t : Tape) :
    (moves d n t).rightmost = max t.rightmost (t.head + n * d.offset) := by
  induction n generalizing t with
  | zero =>
    have h := t.head_le_rightmost
    simp only [moves]
    omega
  | succ n ih =>
    have h := t.head_le_rightmost
    rw [moves, ih, rightmost_move, head_move]
    cases d <;> simp only [Direction.offset] <;> omega

/-- A rewind is a walk to position 0. -/
theorem exists_rewind_eq (t : Tape) : ∃ d n, t.rewind = moves d n t ∧ t.head + n * d.offset = 0 := by
  unfold rewind
  split
  · exact ⟨.left, t.head.toNat, rfl, by simp only [Direction.offset]; omega⟩
  · exact ⟨.right, (-t.head).toNat, rfl, by simp only [Direction.offset]; omega⟩

@[simp] theorem blank_rewind (t : Tape) : t.rewind.blank = t.blank := by
  obtain ⟨d, n, h, -⟩ := t.exists_rewind_eq
  rw [h, blank_moves]

@[simp] theorem get_rewind (t : Tape) (p : Int) : t.rewind.get p = t.get p := by
  obtain ⟨d, n, h, -⟩ := t.exists_rewind_eq
  rw [h, get_moves]

@[simp] theorem head_rewind (t : Tape) : t.rewind.head = 0 := by
  obtain ⟨d, n, h, hzero⟩ := t.exists_rewind_eq
  rw [h, head_moves, hzero]

theorem leftmost_rewind (t : Tape) : t.rewind.leftmost = min t.leftmost 0 := by
  obtain ⟨d, n, h, hzero⟩ := t.exists_rewind_eq
  rw [h, leftmost_moves, hzero]

theorem rightmost_rewind (t : Tape) : t.rewind.rightmost = max t.rightmost 0 := by
  obtain ⟨d, n, h, hzero⟩ := t.exists_rewind_eq
  rw [h, rightmost_moves, hzero]

/-! ## The cells of the window -/

theorem get_of_lt_leftmost {t : Tape} {p : Int} (h : p < t.leftmost) : t.get p = t.blank := by
  unfold leftmost at h
  rw [get_of_lt (by omega), List.getD_eq_default _ _ (by omega)]

theorem get_of_gt_rightmost {t : Tape} {p : Int} (h : t.rightmost < p) : t.get p = t.blank := by
  unfold rightmost at h
  rw [get_of_gt (by omega), List.getD_eq_default _ _ (by omega)]

theorem render_eq_window (t : Tape) : t.render = t.window t.leftmost t.rightmost := by
  have hcells : (t.rightmost + 1 - t.leftmost).toNat = t.left.length + t.right.length + 1 := by
    unfold leftmost rightmost
    omega
  rw [window, stretch, hcells]
  refine List.ext_getElem (by simp [render]; omega) ?_
  intro i hi _
  have hi : i < t.left.length + t.right.length + 1 := by
    simp only [render, List.length_append, List.length_reverse, List.length_cons] at hi
    omega
  simp only [List.getElem_map, List.getElem_range, render, leftmost]
  -- The cells left of the head, the head, the cells right of it.
  rcases Nat.lt_trichotomy i t.left.length with h | h | h
  · rw [get_of_lt (by omega), List.getElem_append_left (by simpa using h), List.getElem_reverse,
      List.getD_eq_getElem t.left t.blank (by omega)]
    congr 1
    omega
  · have hhead : t.head - t.left.length + i = t.head := by omega
    subst h
    rw [hhead, get_head]
    simp
  · rw [get_of_gt (by omega), List.getD_eq_getElem t.right t.blank (by omega),
      List.getElem_append_right (by simp; omega)]
    obtain ⟨k, rfl⟩ : ∃ k, i = t.left.length + (k + 1) := ⟨i - t.left.length - 1, by omega⟩
    simp only [List.length_reverse, Nat.add_sub_cancel_left, List.getElem_cons_succ]
    congr 1
    omega

/-- The positions of the window, from left to right. -/
def positions (t : Tape) : List Int :=
  (List.range (t.rightmost + 1 - t.leftmost).toNat).map fun (i : Nat) => t.leftmost + i

theorem mem_positions {t : Tape} {p : Int} : p ∈ t.positions ↔ t.leftmost ≤ p ∧ p ≤ t.rightmost := by
  rw [positions, List.mem_map]
  constructor
  · rintro ⟨i, hi, rfl⟩
    rw [List.mem_range] at hi
    omega
  · intro h
    exact ⟨(p - t.leftmost).toNat, List.mem_range.mpr (by omega), by omega⟩

theorem nodup_positions (t : Tape) : t.positions.Nodup := by
  refine List.nodup_range.map ?_
  intro i j h
  exact Int.natCast_inj.mp (Int.add_left_cancel h)

theorem mem_positions_of_nonblank {t : Tape} {p : Int} (h : t.get p ≠ t.blank) : p ∈ t.positions := by
  rw [mem_positions]
  constructor
  · by_contra hp
    exact h (get_of_lt_leftmost (by omega))
  · by_contra hp
    exact h (get_of_gt_rightmost (by omega))

theorem nonblanks_eq_length (t : Tape) : t.nonblanks = (t.positions.filter t.isNonblank).length := by
  rw [nonblanks, render_eq_window, window, stretch, positions, ← List.countP_eq_length_filter, List.countP_map, List.countP_map]
  rfl

/-- Every cell that is not blank is counted, and each one once. -/
theorem exists_nonblanks (t : Tape) :
    ∃ ps : Finset Int, (∀ p, p ∈ ps ↔ t.get p ≠ t.blank) ∧ t.nonblanks = ps.card := by
  refine ⟨(t.positions.filter t.isNonblank).toFinset, ?_, ?_⟩
  · intro p
    rw [List.mem_toFinset, List.mem_filter, isNonblank, bne_iff_ne, and_iff_right_iff_imp]
    exact mem_positions_of_nonblank
  · rw [List.toFinset_card_of_nodup (t.nodup_positions.filter t.isNonblank), nonblanks_eq_length]

end TapeMachines.Tape
