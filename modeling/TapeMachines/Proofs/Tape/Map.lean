import Mathlib.Logic.Function.Basic
import TapeMachines.Proofs.Text.Trim
import TapeMachines.Tape
/-!
# Tapes under other symbols

`Tape.map` puts another symbol in the place of each, the blank included. Head and bounds stay, and every
operation commutes with it. What a tape leaves out of its contents stays the same where no two symbols become
one.
-/

namespace TapeMachines.Tape

/-- The tape with another symbol for each of its own. -/
def map (f : Char → Char) (t : Tape) : Tape :=
  ⟨f t.blank, t.left.map f, f t.symbol, t.right.map f, t.head⟩

variable (f : Char → Char) (t : Tape)

@[simp] theorem head_map : (t.map f).head = t.head := rfl

@[simp] theorem symbol_map : (t.map f).symbol = f t.symbol := rfl

theorem map_id : t.map id = t := by
  simp [map]

/-! ## Operations -/

theorem map_ofList (blank : Char) (cs : List Char) : (ofList blank cs).map f = ofList (f blank) (cs.map f) := by
  cases cs <;> rfl

theorem map_move (d : Direction) : (t.move d).map f = (t.map f).move d := by
  cases d with
  | left => simp only [move, map, List.map_tail, List.headD_map, List.map_cons]
  | right => simp only [move, map, List.map_tail, List.headD_map, List.map_cons]
  | stay => rfl

theorem map_perform (write : Option Char) (d : Direction) :
    (t.perform write d).map f = (t.map f).perform (write.map f) d := by
  cases write with
  | none => exact t.map_move f d
  | some c => exact (t.put c).map_move f d

theorem map_moves (d : Direction) (n : Nat) : (moves d n t).map f = moves d n (t.map f) := by
  induction n generalizing t with
  | zero => rfl
  | succ n ih => rw [moves, moves, ih, map_move]

theorem map_rewind : t.rewind.map f = (t.map f).rewind := by
  rw [rewind, rewind, head_map]
  split
  · exact t.map_moves f .left _
  · exact t.map_moves f .right _

/-! ## Texts -/

@[simp] theorem leftmost_map : (t.map f).leftmost = t.leftmost := by
  simp [leftmost, map]

theorem render_map : (t.map f).render = t.render.map f := by
  simp [render, map]

section Injective

variable {f} (hf : Function.Injective f)
include hf

/-- A symbol becomes the blank exactly if it is the blank. -/
theorem beq_blank_map : (· == (t.map f).blank) ∘ f = (· == t.blank) := by
  funext c
  simp only [Function.comp_apply, map, Bool.beq_eq_decide_eq, hf.eq_iff]

theorem contents_map : (t.map f).contents = t.contents.map f := by
  rw [contents, contents, render_map, Text.trimBy_map, beq_blank_map t hf]

theorem isBlank_map : (t.map f).isBlank = t.isBlank := by
  simp only [isBlank, map, List.all_map, Function.comp_def, Bool.beq_eq_decide_eq, hf.eq_iff]

theorem contentsOrigin_map : (t.map f).contentsOrigin = t.contentsOrigin := by
  rw [contentsOrigin, contentsOrigin, isBlank_map t hf, render_map, List.takeWhile_map, beq_blank_map t hf]
  simp

end Injective

end TapeMachines.Tape
