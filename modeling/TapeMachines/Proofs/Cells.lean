import Mathlib.Logic.Function.Basic
import TapeMachines.Tape
/-!
# The tape as a function

`Tape.get` shows a tape as a total function from positions to symbols. In this view a write updates
the function at the head, a move changes the head alone, and an input fills the positions from 0 on.
-/

namespace TapeMachines

/-- How far a direction takes the head. -/
def Direction.offset : Direction → Int
  | .left => -1
  | .right => 1
  | .stay => 0

namespace Tape

theorem head_move (t : Tape) (d : Direction) : (t.move d).head = t.head + d.offset := by
  cases d with
  | left => rfl
  | right => rfl
  | stay => exact (Int.add_zero t.head).symm

theorem head_perform (t : Tape) (write : Option Char) (d : Direction) :
    (t.perform write d).head = t.head + d.offset := by
  cases write with
  | none => exact head_move t d
  | some c => exact head_move (t.put c) d

/-- The cells after a step: the write takes place at the old head, and the move changes no cell. -/
theorem get_perform_some (t : Tape) (c : Char) (d : Direction) :
    (t.perform (some c) d).get = Function.update t.get t.head c := by
  funext p
  simp only [perform, get_move, get_put, Function.update_apply]

theorem get_perform_none (t : Tape) (d : Direction) : (t.perform none d).get = t.get := by
  funext p
  simp only [perform, get_move]

theorem blank_perform (t : Tape) (write : Option Char) (d : Direction) : (t.perform write d).blank = t.blank := by
  cases write with
  | none => exact blank_move t d
  | some c => exact blank_move (t.put c) d

theorem blank_ofList (blank : Char) (cs : List Char) : (ofList blank cs).blank = blank := by
  cases cs <;> rfl

theorem head_ofList (blank : Char) (cs : List Char) : (ofList blank cs).head = 0 := by
  cases cs <;> rfl

theorem get_ofList (blank : Char) (cs : List Char) (p : Int) :
    (ofList blank cs).get p = if 0 ≤ p then cs[p.toNat]?.getD blank else blank := by
  cases cs with
  | nil => simp [ofList, empty, get]
  | cons c cs =>
    rcases Int.lt_trichotomy p 0 with h | rfl | h
    · rw [get_of_lt (show p < (ofList blank (c :: cs)).head from h), if_neg (by omega)]
      simp [ofList]
    · rfl
    · rw [get_of_gt (show (ofList blank (c :: cs)).head < p from h), if_pos (by omega),
        show p.toNat = (p - 0 - 1).toNat + 1 by omega, List.getElem?_cons_succ,
        ← List.getD_eq_getElem?_getD]
      rfl

end Tape

end TapeMachines
