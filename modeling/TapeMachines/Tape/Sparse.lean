import Mathlib
import TapeMachines.Tape
/-!
# The tape as it is stored

A `SparseTape` stores the cells that are not blank, keyed by position, and the bounds of what it has
visited. Reading, writing, moving and rewinding end by widening the bounds to the head (`touch`);
looking at a tape does not. The text of all visited cells goes by the bounds (`render`), and that of the
contents by the first and the last key of the map. Machines run on a `Tape`; a `SparseTape` that is
asked for the same actions shows the same (`SparseTape.Shows`).
-/

namespace TapeMachines

structure SparseTape where
  blank : Char
  cells : Std.TreeMap Int Char
  head : Int
  /-- The lowest position visited. -/
  lowest : Int
  /-- The highest position visited. -/
  highest : Int

namespace SparseTape

/-! ## Building a tape -/

def empty (blank : Char) : SparseTape := ⟨blank, ∅, 0, 0, 0⟩

/-- Puts one symbol of a seed at its position, unless it is the blank. Its position is visited either way. -/
def place (s : SparseTape) (c : Char) (p : Int) : SparseTape :=
  { s with cells := if c = s.blank then s.cells else s.cells.insert p c, highest := p }

/-- The symbols in order from position 0, with the head on position 0. -/
def ofList (blank : Char) (seed : List Char) : SparseTape :=
  seed.zipIdx.foldl (fun s (c, i) => s.place c i) (empty blank)

/-! ## Looking at a tape -/

def get (s : SparseTape) (p : Int) : Char := s.cells[p]?.getD s.blank

def symbol (s : SparseTape) : Char := s.get s.head

def isStored (s : SparseTape) (p : Int) : Bool := s.cells.contains p

/-- How many cells are stored. -/
def stored (s : SparseTape) : Nat := s.cells.size

/-- Every visited cell, from the lowest bound to the highest. -/
def render (s : SparseTape) : List Char := Tape.stretch s.get s.lowest s.highest

/-- The cells from the first stored one to the last. -/
def contents (s : SparseTape) : List Char :=
  match s.cells.keys.head?, s.cells.keys.getLast? with
  | some first, some last => Tape.stretch s.get first last
  | _, _ => []

/-- The position of the first stored cell; the head's where none is stored. -/
def contentsOrigin (s : SparseTape) : Int := s.cells.keys.head?.getD s.head

/-! ## Operations -/

/-- Widens the bounds to the head. -/
def touch (s : SparseTape) : SparseTape :=
  { s with lowest := min s.lowest s.head, highest := max s.highest s.head }

def read (s : SparseTape) : Char × SparseTape := (s.touch.symbol, s.touch)

/-- Writes under the head. Writing the blank erases the cell. -/
def write (s : SparseTape) (c : Char) : SparseTape :=
  touch { s with cells := if c = s.blank then s.cells.erase s.head else s.cells.insert s.head c }

def move (s : SparseTape) : Direction → SparseTape
  | .left => touch { s with head := s.head - 1 }
  | .right => touch { s with head := s.head + 1 }
  | .stay => touch s

/-- Puts the head back on position 0. -/
def rewind (s : SparseTape) : SparseTape := touch { s with head := 0 }

end SparseTape

end TapeMachines
