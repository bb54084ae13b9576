/-!
# Programs of a Post machine

A Post machine works on cells that are erased (`0`) or marked (`1`). Its program is a list of
instructions, each with a line number of its own; control is a line number and begins at line 1.
The list may be in any order, and lines may be missing or repeated.
-/

namespace TapeMachines.Post

def blank : Char := '0'

def mark : Char := '1'

def firstLine : Nat := 1

/-- What a command does before it goes on to the next line. -/
inductive Act where
  | right | left | erase | mark
  deriving DecidableEq, Repr

inductive Command where
  | perform (act : Act) (next : Nat)
  /-- Goes on to one line from an erased cell and to another from a marked one. -/
  | branch (erased marked : Nat)
  | halt
  | malformed
  deriving DecidableEq, Repr

/-- The lines a command may go on to, in the order they are written. -/
def Command.targets : Command → List Nat
  | .perform _ next => [next]
  | .branch erased marked => [erased, marked]
  | .halt | .malformed => []

structure Instruction where
  line : Nat
  /-- The words of the instruction with single spaces between them. -/
  text : String
  command : Command
  deriving DecidableEq, Repr

structure Program where
  instructions : List Instruction
  deriving DecidableEq, Repr

namespace Program

/-- Looks at the place where line `n` stands in a listing without gaps. -/
def atIndex? (p : Program) (n : Nat) : Option Instruction :=
  if n = 0 then none else p.instructions[n - 1]?.filter (·.line = n)

/-- The instruction of line `n`: the one at the place for `n`, else the first with that number. -/
def find? (p : Program) (n : Nat) : Option Instruction :=
  (p.atIndex? n).or (p.instructions.find? (·.line = n))

theorem line_of_find? {p : Program} {n : Nat} {i : Instruction} (h : p.find? n = some i) : i.line = n := by
  rw [find?, Option.or_eq_some_iff] at h
  rcases h with h | ⟨-, h⟩
  · rw [atIndex?] at h
    split at h
    · cases h
    · simpa using (Option.filter_eq_some_iff.1 h).2
  · simpa using List.find?_some h

theorem mem_of_find? {p : Program} {n : Nat} {i : Instruction} (h : p.find? n = some i) :
    i ∈ p.instructions := by
  rw [find?, Option.or_eq_some_iff] at h
  rcases h with h | ⟨-, h⟩
  · rw [atIndex?] at h
    split at h
    · cases h
    · exact List.mem_of_getElem? (Option.filter_eq_some_iff.1 h).1
  · exact List.mem_of_find?_eq_some h

end Program

end TapeMachines.Post
