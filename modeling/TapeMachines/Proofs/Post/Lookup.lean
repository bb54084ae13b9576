import Mathlib.Data.List.Nodup
import Mathlib.Data.List.Perm.Basic
import TapeMachines.Post.Listing
import TapeMachines.Proofs.Text.Lines
/-!
# Finding a line

`find?_isSome_iff` and `find?_eq_some_iff` say what `Program.find?` finds without mention of places in
the list: some instruction of the line, and the only one where no line is repeated, whatever the order
(`find?_of_perm`). Every program that is read from a listing repeats none (`distinctLines_ofLines`,
`distinctLines_ofText`).
-/

namespace TapeMachines.Post.Program

theorem find?_isSome_iff {p : Program} {n : Nat} :
    (p.find? n).isSome = true ↔ ∃ i ∈ p.instructions, i.line = n := by
  constructor
  · intro h
    obtain ⟨i, hi⟩ := Option.isSome_iff_exists.1 h
    exact ⟨i, mem_of_find? hi, line_of_find? hi⟩
  · rintro ⟨i, hi, hn⟩
    have hs : (p.instructions.find? fun j => j.line = n).isSome = true :=
      List.find?_isSome.2 ⟨i, hi, by simpa using hn⟩
    rw [find?, Option.isSome_or, hs, Bool.or_true]

theorem find?_eq_none_iff {p : Program} {n : Nat} :
    p.find? n = none ↔ ∀ i ∈ p.instructions, i.line ≠ n := by
  rw [← Option.not_isSome_iff_eq_none, find?_isSome_iff]
  simp

/-- No two instructions have the same line. -/
def DistinctLines (p : Program) : Prop := (p.instructions.map (·.line)).Nodup

instance (p : Program) : Decidable p.DistinctLines :=
  inferInstanceAs (Decidable (p.instructions.map (·.line)).Nodup)

theorem find?_eq_some_iff {p : Program} (hp : p.DistinctLines) {n : Nat} {i : Instruction} :
    p.find? n = some i ↔ i ∈ p.instructions ∧ i.line = n := by
  constructor
  · intro h
    exact ⟨mem_of_find? h, line_of_find? h⟩
  · rintro ⟨hi, hn⟩
    obtain ⟨j, hj⟩ := Option.isSome_iff_exists.1 (find?_isSome_iff.2 ⟨i, hi, hn⟩)
    have hl : j.line = i.line := (line_of_find? hj).trans hn.symm
    rw [hj, List.inj_on_of_nodup_map hp (mem_of_find? hj) hi hl]

/-- The order of instructions without a repeated line does not matter. -/
theorem find?_of_perm {p q : Program} (hp : p.DistinctLines) (h : q.instructions.Perm p.instructions) (n : Nat) :
    q.find? n = p.find? n := by
  have hq : q.DistinctLines := (h.map Instruction.line).nodup_iff.2 hp
  ext i
  rw [find?_eq_some_iff hq, find?_eq_some_iff hp, h.mem_iff]

/-! ## Programs read from a listing -/

theorem distinctLines_of_numbered (ls : List (List Char)) :
    DistinctLines ⟨(Text.numbered ls).map fun (n, line) => .ofLine n line⟩ := by
  rw [DistinctLines, List.map_map]
  exact (Text.positions_numbered ls).imp Nat.ne_of_lt

theorem distinctLines_ofLines (ls : List String) : (ofLines ls).DistinctLines :=
  distinctLines_of_numbered _

theorem distinctLines_ofText (text : String) : (ofText text).DistinctLines :=
  distinctLines_of_numbered _

end TapeMachines.Post.Program
