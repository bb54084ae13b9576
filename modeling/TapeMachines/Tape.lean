import TapeMachines.Direction
import TapeMachines.Text.Trim
/-!
# The tape

A tape is unbounded on both sides and blank almost everywhere. It is held as seen from its head: the
cell under the head, and on each side the cells of the visited window, nearest first. So the window
is never empty, always contains the head, and grows by one cell when the head steps out of it.
Beyond the window every cell is blank.

`Tape.get` is the view as a function from positions to symbols; `get_put` and `get_move` say what
the two elementary operations do to it.
-/

namespace TapeMachines

structure Tape where
  blank : Char
  /-- The visited cells left of the head, nearest first. -/
  left : List Char
  /-- The symbol under the head. -/
  symbol : Char
  /-- The visited cells right of the head, nearest first. -/
  right : List Char
  head : Int
  deriving DecidableEq, Repr

namespace Tape

/-! ## Building a tape -/

def empty (blank : Char) : Tape := ⟨blank, [], blank, [], 0⟩

/-- The symbols in order from position 0, with the head on position 0. -/
def ofList (blank : Char) : List Char → Tape
  | [] => empty blank
  | c :: cs => ⟨blank, [], c, cs, 0⟩

/-! ## Moving and writing -/

def put (t : Tape) (c : Char) : Tape := { t with symbol := c }

def move (t : Tape) : Direction → Tape
  | .left =>
    { t with left := t.left.tail, symbol := t.left.headD t.blank, right := t.symbol :: t.right,
             head := t.head - 1 }
  | .right =>
    { t with left := t.symbol :: t.left, symbol := t.right.headD t.blank, right := t.right.tail,
             head := t.head + 1 }
  | .stay => t

/-- Moves the head one way a number of times. -/
def moves (d : Direction) : Nat → Tape → Tape
  | 0, t => t
  | n + 1, t => moves d n (t.move d)

/-- Writes, unless there is nothing to write, and then moves. -/
def perform (t : Tape) (write : Option Char) (d : Direction) : Tape :=
  match write with
  | some c => (t.put c).move d
  | none => t.move d

/-- Walks the head back to position 0. The cells stay as they are. -/
def rewind (t : Tape) : Tape :=
  if 0 ≤ t.head then moves .left t.head.toNat t else moves .right (-t.head).toNat t

/-! ## Looking at a tape -/

def get (t : Tape) (p : Int) : Char :=
  if p < t.head then t.left.getD (t.head - p - 1).toNat t.blank
  else if t.head < p then t.right.getD (p - t.head - 1).toNat t.blank
  else t.symbol

/-- The leftmost visited position. -/
def leftmost (t : Tape) : Int := t.head - t.left.length

/-- The rightmost visited position. -/
def rightmost (t : Tape) : Int := t.head + t.right.length

/-- The visited cells from left to right. -/
def render (t : Tape) : List Char := t.left.reverse ++ t.symbol :: t.right

/-- The cells from the first to the last that is not blank. -/
def contents (t : Tape) : List Char := Text.trimBy (· == t.blank) t.render

/-- Whether every cell is blank. -/
def isBlank (t : Tape) : Bool :=
  t.symbol == t.blank && t.left.all (· == t.blank) && t.right.all (· == t.blank)

/-- Where `contents` begins; the head's position on a blank tape. -/
def contentsOrigin (t : Tape) : Int :=
  if t.isBlank then t.head else t.leftmost + (t.render.takeWhile (· == t.blank)).length

/-- The symbols at the positions `first` to `last`, both included. -/
def stretch (cells : Int → Char) (first last : Int) : List Char :=
  (List.range (last + 1 - first).toNat).map fun (i : Nat) => cells (first + i)

def window (t : Tape) (first last : Int) : List Char := stretch t.get first last

def isNonblank (t : Tape) (p : Int) : Bool := t.get p != t.blank

/-- How many cells are not blank. -/
def nonblanks (t : Tape) : Nat := t.render.countP (· != t.blank)

/-! ## The view of each operation -/

@[simp] theorem get_head (t : Tape) : t.get t.head = t.symbol := by simp [get]

theorem get_of_lt {t : Tape} {p : Int} (h : p < t.head) :
    t.get p = t.left.getD (t.head - p - 1).toNat t.blank := if_pos h

theorem get_of_gt {t : Tape} {p : Int} (h : t.head < p) :
    t.get p = t.right.getD (p - t.head - 1).toNat t.blank := by
  rw [get, if_neg (by omega), if_pos h]

@[simp] theorem blank_put (t : Tape) (c : Char) : (t.put c).blank = t.blank := rfl

@[simp] theorem head_put (t : Tape) (c : Char) : (t.put c).head = t.head := rfl

@[simp] theorem symbol_put (t : Tape) (c : Char) : (t.put c).symbol = c := rfl

@[simp] theorem blank_move (t : Tape) (d : Direction) : (t.move d).blank = t.blank := by cases d <;> rfl

theorem get_put (t : Tape) (c : Char) (p : Int) :
    (t.put c).get p = if p = t.head then c else t.get p := by
  rcases Int.lt_trichotomy p t.head with h | rfl | h
  · rw [if_neg (by omega), get_of_lt h, get_of_lt (t := t.put c) h]; rfl
  · rw [if_pos rfl]; exact get_head (t.put c)
  · rw [if_neg (by omega), get_of_gt h, get_of_gt (t := t.put c) h]; rfl

theorem get_move_left (t : Tape) (p : Int) : (t.move .left).get p = t.get p := by
  obtain ⟨b, l, s, r, h⟩ := t
  have hd : (move ⟨b, l, s, r, h⟩ .left).head = h - 1 := rfl
  rcases Int.lt_trichotomy p (h - 1) with hp | rfl | hp
  · rw [get_of_lt (by omega), get_of_lt (show p < h by omega)]
    show l.tail.getD (h - 1 - p - 1).toNat b = l.getD (h - p - 1).toNat b
    rw [show (h - p - 1).toNat = (h - 1 - p - 1).toNat + 1 by omega]
    cases l <;> simp
  · rw [← hd, get_head, hd, get_of_lt (show h - 1 < h by omega)]
    show l.headD b = l.getD (h - (h - 1) - 1).toNat b
    rw [show (h - (h - 1) - 1).toNat = 0 by omega]
    cases l <;> simp
  · rw [get_of_gt (by omega)]
    show (s :: r).getD (p - (h - 1) - 1).toNat b = _
    rcases Int.lt_or_eq_of_le (show h ≤ p by omega) with hq | rfl
    · rw [get_of_gt (show h < p from hq), show (p - (h - 1) - 1).toNat = (p - h - 1).toNat + 1 by omega]
      rfl
    · rw [show (h - (h - 1) - 1).toNat = 0 by omega]
      exact (get_head ⟨b, l, s, r, h⟩).symm

theorem get_move_right (t : Tape) (p : Int) : (t.move .right).get p = t.get p := by
  obtain ⟨b, l, s, r, h⟩ := t
  have hd : (move ⟨b, l, s, r, h⟩ .right).head = h + 1 := rfl
  rcases Int.lt_trichotomy p (h + 1) with hp | rfl | hp
  · rw [get_of_lt (by omega)]
    show (s :: l).getD (h + 1 - p - 1).toNat b = _
    rcases Int.lt_or_eq_of_le (show p ≤ h by omega) with hq | rfl
    · rw [get_of_lt (show p < h from hq), show (h + 1 - p - 1).toNat = (h - p - 1).toNat + 1 by omega]
      rfl
    · rw [show (p + 1 - p - 1).toNat = 0 by omega]
      exact (get_head ⟨b, l, s, r, p⟩).symm
  · rw [← hd, get_head, hd, get_of_gt (show h < h + 1 by omega)]
    show r.headD b = r.getD (h + 1 - h - 1).toNat b
    rw [show (h + 1 - h - 1).toNat = 0 by omega]
    cases r <;> simp
  · rw [get_of_gt (by omega), get_of_gt (show h < p by omega)]
    show r.tail.getD (p - (h + 1) - 1).toNat b = r.getD (p - h - 1).toNat b
    rw [show (p - h - 1).toNat = (p - (h + 1) - 1).toNat + 1 by omega]
    cases r <;> simp

/-- Moving the head leaves every cell as it was. -/
@[simp] theorem get_move (t : Tape) (d : Direction) (p : Int) : (t.move d).get p = t.get p := by
  cases d with
  | left => exact get_move_left t p
  | right => exact get_move_right t p
  | stay => rfl

end Tape

end TapeMachines
