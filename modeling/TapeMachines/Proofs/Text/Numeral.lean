import Mathlib.Data.Nat.Digits.Defs
import TapeMachines.Text.Numeral
/-!
# What a numeral denotes

`Denotes word n` says that `word` is one or more decimal digits, with a plus sign before them or not,
whose value in base 10 is `n`, and that `n` is below `2 ^ 64`. `natural?` reads exactly these
(`natural?_eq_some_iff`).
-/

namespace TapeMachines.Text

/-- The value of a decimal digit. -/
def digitValue (c : Char) : Nat := c.toNat - '0'.toNat

def Denotes (word : List Char) (n : Nat) : Prop :=
  ∃ digits, (word = digits ∨ word = '+' :: digits) ∧ digits ≠ [] ∧ (∀ c ∈ digits, c.isDigit = true) ∧
    Nat.ofDigits 10 (digits.reverse.map digitValue) = n ∧ n < 2 ^ 64

/-- Reading from the left gives each digit the power of ten of its place. -/
theorem digitsValue_eq (digits : List Char) :
    digitsValue digits = Nat.ofDigits 10 (digits.reverse.map digitValue) := by
  rw [digitsValue, Nat.ofDigits_eq_foldr, List.foldr_map, List.foldr_reverse]
  congr 1
  funext n c
  exact Nat.add_comm _ _

theorem unsigned?_eq_some_iff {digits : List Char} {n : Nat} :
    unsigned? digits = some n ↔ digits ≠ [] ∧ (∀ c ∈ digits, c.isDigit = true) ∧
      Nat.ofDigits 10 (digits.reverse.map digitValue) = n ∧ n < 2 ^ 64 := by
  have hmax : ∀ k, k ≤ maxNatural ↔ k < 2 ^ 64 := by
    intro k
    simp only [maxNatural]
    omega
  rw [← digitsValue_eq, unsigned?]
  split
  · rename_i h
    rw [Bool.or_eq_true, List.isEmpty_iff, Bool.not_eq_true', ← Bool.not_eq_true, List.all_eq_true] at h
    constructor
    · rintro ⟨⟩
    · rintro ⟨hne, hall, -⟩
      exact (h.elim hne fun hnot => hnot hall).elim
  · rename_i h
    rw [Bool.or_eq_true, not_or, List.isEmpty_iff, Bool.not_eq_true', Bool.not_eq_false, List.all_eq_true] at h
    rw [Option.ite_none_right_eq_some, Option.some.injEq, hmax]
    constructor
    · rintro ⟨hlt, rfl⟩
      exact ⟨h.1, h.2, rfl, hlt⟩
    · rintro ⟨-, -, rfl, hlt⟩
      exact ⟨hlt, rfl⟩

theorem natural?_eq_some_iff {word : List Char} {n : Nat} : natural? word = some n ↔ Denotes word n := by
  unfold natural?
  split
  · rename_i digits
    rw [unsigned?_eq_some_iff]
    constructor
    · intro h
      exact ⟨digits, .inr rfl, h⟩
    · rintro ⟨ds, hword | hword, hds⟩
      · -- A word with a sign is not made of digits.
        subst hword
        have hplus := hds.2.1 '+' List.mem_cons_self
        cases hplus
      · obtain rfl := (List.cons.inj hword).2
        exact hds
  · rename_i hsign
    rw [unsigned?_eq_some_iff]
    constructor
    · intro h
      exact ⟨word, .inl rfl, h⟩
    · rintro ⟨ds, rfl | rfl, hds⟩
      · exact hds
      · exact absurd rfl (hsign ds)

end TapeMachines.Text
