/-!
# Numerals

A natural number in a listing or on the command line is written as one or more decimal digits, with
leading zeros and one plus sign allowed. Numbers are bounded by `maxNatural`: a numeral above it
denotes nothing.
-/

namespace TapeMachines.Text

/-- The greatest line number, target or step bound, and the greatest count a document may hold. -/
def maxNatural : Nat := 0xFFFFFFFFFFFFFFFF

/-- The value of a row of decimal digits. -/
def digitsValue (digits : List Char) : Nat :=
  digits.foldl (fun n c => 10 * n + (c.toNat - '0'.toNat)) 0

def unsigned? (digits : List Char) : Option Nat :=
  if digits.isEmpty || !digits.all Char.isDigit then none
  else if digitsValue digits ≤ maxNatural then some (digitsValue digits) else none

def natural? : List Char → Option Nat
  | '+' :: digits => unsigned? digits
  | digits => unsigned? digits

example : natural? "+007".toList = some 7 := by decide

example : natural? "18446744073709551616".toList = none := by decide

end TapeMachines.Text
