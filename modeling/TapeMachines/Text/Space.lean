import TapeMachines.Text.Trim
/-!
# White space

A line of a listing is trimmed of the characters with the Unicode property White_Space (`isSpace`).
Inside a line only the space and the tab separate words (`isGap`): any other white space there is
part of a word.
-/

namespace TapeMachines.Text

/-- The characters with the Unicode property White_Space. -/
def isSpace (c : Char) : Bool :=
  let n := c.toNat
  (0x09 ≤ n && n ≤ 0x0D) || n == 0x20 || n == 0x85 || n == 0xA0 || n == 0x1680 ||
    (0x2000 ≤ n && n ≤ 0x200A) || n == 0x2028 || n == 0x2029 || n == 0x202F || n == 0x205F ||
    n == 0x3000

def isGap (c : Char) : Bool := c = ' ' || c = '\t'

def trim (line : List Char) : List Char := trimBy isSpace line

theorem isSpace_of_isGap {c : Char} (h : isGap c = true) : isSpace c = true := by
  simp only [isGap, Bool.or_eq_true, decide_eq_true_eq] at h
  rcases h with rfl | rfl <;> decide

end TapeMachines.Text
