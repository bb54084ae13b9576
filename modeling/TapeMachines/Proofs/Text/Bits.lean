import Mathlib.Tactic.Ring
import TapeMachines.Proofs.Text.Trim
/-!
# Words of bits

Words over the symbols `0` and `1`: the number that such a word denotes with its most significant bit first, its
ones at either end, and its complement. What a carry does to a word is told by `binaryValue_append_ones` and
`binaryValue_append_zeros`.
-/

namespace TapeMachines.Text

def IsBits (cs : List Char) : Prop := ∀ c ∈ cs, c = '0' ∨ c = '1'

def bit (c : Char) : Nat := if c = '1' then 1 else 0

def binaryValue (cs : List Char) : Nat := cs.foldl (fun n c => 2 * n + bit c) 0

/-- How many ones stand at the end of a word. -/
def trailingOnes (cs : List Char) : Nat := (cs.rtakeWhile (· = '1')).length

/-- How many ones stand at the beginning of a word. -/
def leadingOnes (cs : List Char) : Nat := (cs.takeWhile (· = '1')).length

def otherBit (c : Char) : Char := if c = '1' then '0' else '1'

/-- A zero for each one and a one for each zero. -/
def complement (cs : List Char) : List Char := cs.map otherBit

/-! ## Values -/

theorem binaryValue_append_singleton (cs : List Char) (c : Char) :
    binaryValue (cs ++ [c]) = 2 * binaryValue cs + bit c := by
  simp [binaryValue]

theorem binaryValue_append_zeros (cs : List Char) (n : Nat) :
    binaryValue (cs ++ List.replicate n '0') = binaryValue cs * 2 ^ n := by
  induction n with
  | zero => simp
  | succ n ih =>
    rw [List.replicate_succ', ← List.append_assoc, binaryValue_append_singleton, ih, show bit '0' = 0 from rfl]
    ring

theorem binaryValue_append_ones (cs : List Char) (n : Nat) :
    binaryValue (cs ++ List.replicate n '1') + 1 = (binaryValue cs + 1) * 2 ^ n := by
  induction n with
  | zero => simp
  | succ n ih =>
    rw [List.replicate_succ', ← List.append_assoc, binaryValue_append_singleton, show bit '1' = 1 from rfl]
    calc 2 * binaryValue (cs ++ List.replicate n '1') + 1 + 1
        = 2 * (binaryValue (cs ++ List.replicate n '1') + 1) := by ring
      _ = (binaryValue cs + 1) * 2 ^ (n + 1) := by rw [ih]; ring

/-! ## Ones at the ends -/

/-- A word begins with its leading ones, and behind these stands a zero or nothing. -/
theorem IsBits.exists_leadingOnes {cs : List Char} (h : IsBits cs) :
    cs = List.replicate (leadingOnes cs) '1' ∨
      ∃ rest, cs = List.replicate (leadingOnes cs) '1' ++ '0' :: rest := by
  have hones : cs.takeWhile (· = '1') = List.replicate (leadingOnes cs) '1' := by
    rw [List.eq_replicate_iff]
    refine ⟨rfl, ?_⟩
    intro c hc
    simpa using List.mem_takeWhile_imp hc
  have hcs : List.replicate (leadingOnes cs) '1' ++ cs.dropWhile (· = '1') = cs := by
    rw [← hones, List.takeWhile_append_dropWhile]
  cases hrest : cs.dropWhile (· = '1') with
  | nil =>
    rw [hrest, List.append_nil] at hcs
    exact .inl hcs.symm
  | cons c rest =>
    have hc : c ≠ '1' := by simpa using head?_dropWhile (congrArg List.head? hrest)
    have hmem : c ∈ cs := (List.dropWhile_sublist _).subset (hrest ▸ List.mem_cons_self)
    obtain rfl : c = '0' := (h c hmem).resolve_right hc
    rw [hrest] at hcs
    exact .inr ⟨rest, hcs.symm⟩

/-- A word ends with its trailing ones, and before these stands a zero or nothing. -/
theorem IsBits.exists_trailingOnes {cs : List Char} (h : IsBits cs) :
    cs = List.replicate (trailingOnes cs) '1' ∧ '0' ∉ cs ∨
      ∃ before, IsBits before ∧ cs = before ++ '0' :: List.replicate (trailingOnes cs) '1' := by
  have hcount : trailingOnes cs = leadingOnes cs.reverse := by simp [trailingOnes, leadingOnes, List.rtakeWhile]
  have hbits : IsBits cs.reverse := fun c hc => h c (List.mem_reverse.1 hc)
  rw [hcount]
  rcases hbits.exists_leadingOnes with hall | ⟨rest, hrest⟩
  · left
    have hcs : cs = List.replicate (leadingOnes cs.reverse) '1' := by simpa using congrArg List.reverse hall
    refine ⟨hcs, ?_⟩
    rw [hcs]
    simp
  · right
    refine ⟨rest.reverse, ?_, by simpa using congrArg List.reverse hrest⟩
    intro c hc
    refine hbits c ?_
    rw [hrest]
    exact List.mem_append_right _ (List.mem_cons_of_mem _ (List.mem_reverse.1 hc))

/-! ## Complements -/

theorem isBits_complement (cs : List Char) : IsBits (complement cs) := by
  intro c hc
  obtain ⟨d, -, rfl⟩ := List.mem_map.1 hc
  unfold otherBit
  split
  · exact .inl rfl
  · exact .inr rfl

theorem length_complement (cs : List Char) : (complement cs).length = cs.length := List.length_map _

theorem otherBit_otherBit {c : Char} (h : c = '0' ∨ c = '1') : otherBit (otherBit c) = c := by
  rcases h with rfl | rfl <;> rfl

theorem complement_complement {cs : List Char} (h : IsBits cs) : complement (complement cs) = cs := by
  have hsame : ∀ c ∈ cs, (otherBit ∘ otherBit) c = id c := fun c hc => otherBit_otherBit (h c hc)
  rw [complement, complement, List.map_map, List.map_congr_left hsame, List.map_id]

end TapeMachines.Text
