import TapeMachines.Text.Space
/-!
# Lines and words

A text is a sequence of lines, each ended by a line feed; one carriage return directly before the
line feed belongs to the line's end. A last line without a line feed counts if it is not empty, and
keeps its carriage return. `numbered` gives the lines that say something, trimmed, with their
positions counted from 1 over all lines; `words` cuts a line at spaces and tabs.
-/

namespace TapeMachines.Text

/-- A line that was ended by a line feed, less one carriage return at its end. -/
def dropReturn (line : List Char) : List Char :=
  if line.getLast? = some '\r' then line.dropLast else line

def lines (text : List Char) : List (List Char) :=
  let pieces := text.splitOn '\n'
  pieces.dropLast.map dropReturn ++ pieces.getLast?.toList.filter fun last => !last.isEmpty

/-- The maximal runs of characters other than space and tab. -/
def words (line : List Char) : List (List Char) :=
  (line.splitOnP isGap).filter fun word => !word.isEmpty

/-- A line's position and trimmed text, unless the line is all white space. -/
def numberedLine (line : List Char × Nat) : Option (Nat × List Char) :=
  let text := trim line.1
  if text.isEmpty then none else some (line.2, text)

def numbered (ls : List (List Char)) : List (Nat × List Char) :=
  (ls.zipIdx 1).filterMap numberedLine

example : lines "a\r\n\nb\r".toList = [['a'], [], ['b', '\r']] := by decide

example : lines "\n".toList = [[]] := by decide

theorem numberedLine_add (line : List Char) (n distance : Nat) :
    numberedLine (line, n + distance) = (numberedLine (line, n)).map fun x => (x.1 + distance, x.2) := by
  simp only [numberedLine]
  split <;> rfl

/-- The lines behind others keep their texts, with their positions moved on. -/
theorem numbered_append (as bs : List (List Char)) :
    numbered (as ++ bs) = numbered as ++ (numbered bs).map fun x => (x.1 + as.length, x.2) := by
  rw [numbered, numbered, numbered, List.zipIdx_append, List.filterMap_append, Nat.add_comm,
    ← List.map_snd_add_zipIdx_eq_zipIdx, List.filterMap_map, List.map_filterMap]
  congr 2
  funext ⟨line, n⟩
  exact numberedLine_add line n as.length

end TapeMachines.Text
