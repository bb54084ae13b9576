/-!
# Reading bytes as text

`decodeLossy` reads bytes as UTF-8 and puts the replacement character for every piece that is not
well formed. A piece is as long as it could still have become a character: it ends before the first
byte that rules this out, and that byte starts anew.
-/

namespace TapeMachines.Text

def replacement : Char := Char.ofNat 0xFFFD

/-- Where a reader of bytes stands: between characters, or owed `owed + 1` more bytes of a character
with the bits `bits` so far, the first of them between `low` and `high`. -/
inductive Utf8State where
  | start
  | inside (owed low high bits : Nat)
  deriving DecidableEq, Repr

/-- The state after the first byte of a character, and the text this byte completes. -/
def Utf8State.first (b : Nat) : List Char × Utf8State :=
  if b < 0x80 then ([Char.ofNat b], .start)
  else if 0xC2 ≤ b ∧ b ≤ 0xDF then ([], .inside 0 0x80 0xBF (b - 0xC0))
  else if b = 0xE0 then ([], .inside 1 0xA0 0xBF 0)
  else if b = 0xED then ([], .inside 1 0x80 0x9F 0xD)
  else if 0xE1 ≤ b ∧ b ≤ 0xEF then ([], .inside 1 0x80 0xBF (b - 0xE0))
  else if b = 0xF0 then ([], .inside 2 0x90 0xBF 0)
  else if 0xF1 ≤ b ∧ b ≤ 0xF3 then ([], .inside 2 0x80 0xBF (b - 0xF0))
  else if b = 0xF4 then ([], .inside 2 0x80 0x8F 4)
  else ([replacement], .start)

def Utf8State.next (s : Utf8State) (b : Nat) : List Char × Utf8State :=
  match s with
  | .start => first b
  | .inside owed low high bits =>
    if low ≤ b ∧ b ≤ high then
      match owed with
      | 0 => ([Char.ofNat (64 * bits + (b - 0x80))], .start)
      | owed + 1 => ([], .inside owed 0x80 0xBF (64 * bits + (b - 0x80)))
    else
      let (text, state) := first b
      (replacement :: text, state)

def decodeFrom : Utf8State → List UInt8 → List Char
  | .start, [] => []
  | .inside .., [] => [replacement]
  | s, b :: bytes =>
    let (text, state) := s.next b.toNat
    text ++ decodeFrom state bytes

def decodeLossy (bytes : List UInt8) : List Char := decodeFrom .start bytes

end TapeMachines.Text
