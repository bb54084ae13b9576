import Mathlib.Data.Set.Insert
import Mathlib.Tactic.Tauto
import TapeMachines.Proofs.Cells
/-!
# What a tape has been through

An `Action` is one thing that can be asked of a tape. What a tape should hold after a list of actions is
told here from the actions alone, with no tape at hand: where the head stands (`headAfter`), which symbol
was written last at a position (`lastWritten?`), what the position therefore holds (`symbolAt`), and
which positions count as visited (`visited`).
-/

namespace TapeMachines.Tape

inductive Action
  | read
  | write (c : Char)
  | move (d : Direction)
  | rewind
  deriving DecidableEq, Repr

theorem Action.write_or_not (a : Action) : (∃ c, a = .write c) ∨ ∀ c, a ≠ .write c := by
  cases a with
  | write c => exact .inl ⟨c, rfl⟩
  | read | move | rewind => exact .inr nofun

/-! ## The head -/

/-- Where an action leaves a head that stands at `h`. -/
def Action.head (h : Int) : Action → Int
  | .read | .write _ => h
  | .move d => h + d.offset
  | .rewind => 0

/-- Where the head stands after the actions; it starts at position 0. -/
def headAfter (actions : List Action) : Int := actions.foldl Action.head 0

theorem headAfter_append_singleton (actions : List Action) (a : Action) :
    headAfter (actions ++ [a]) = a.head (headAfter actions) := by
  rw [headAfter, List.foldl_append]
  rfl

/-- Every position the head has held, the first one included. -/
def headsHeld (actions : List Action) : List Int := actions.scanl Action.head 0

theorem headsHeld_append_singleton (actions : List Action) (a : Action) :
    headsHeld (actions ++ [a]) = headsHeld actions ++ [headAfter (actions ++ [a])] := by
  rw [headsHeld, List.scanl_append, headAfter_append_singleton]
  rfl

/-! ## The symbols -/

/-- What is written where, in order, by a head that starts at `h`. -/
def writesFrom (h : Int) : List Action → List (Int × Char)
  | [] => []
  | .write c :: actions => (h, c) :: writesFrom h actions
  | a :: actions => writesFrom (a.head h) actions

/-- The symbol that was written last at position `p`. -/
def lastWritten? (actions : List Action) (p : Int) : Option Char :=
  ((writesFrom 0 actions).reverse.find? fun w => w.1 == p).map Prod.snd

/-- The symbol of the seed at position `p`; the seed begins at position 0. -/
def seedAt? (seed : List Char) (p : Int) : Option Char :=
  if 0 ≤ p then seed[p.toNat]? else none

/-- The symbol at position `p`: the one written there last, else that of the seed, else the blank. -/
def symbolAt (blank : Char) (seed : List Char) (actions : List Action) (p : Int) : Char :=
  ((lastWritten? actions p).or (seedAt? seed p)).getD blank

theorem seedAt?_append_singleton (seed : List Char) (c : Char) (p : Int) :
    seedAt? (seed ++ [c]) p = if p = seed.length then some c else seedAt? seed p := by
  unfold seedAt?
  by_cases hp : 0 ≤ p
  · rw [if_pos hp, if_pos hp, List.getElem?_append]
    split
    · next h => rw [if_neg (by omega)]
    · next h =>
      by_cases hlast : p = seed.length
      · simp [hlast]
      · rw [if_neg hlast, List.getElem?_eq_none (by simp; omega), List.getElem?_eq_none (by omega)]
  · rw [if_neg hp, if_neg hp, if_neg (by omega)]

theorem lt_length_of_seedAt? {seed : List Char} {p : Int} (h : (seedAt? seed p).isSome) :
    0 ≤ p ∧ p < seed.length := by
  unfold seedAt? at h
  split at h
  · next hp =>
    have hlength : p.toNat < seed.length := by simpa using h
    omega
  · simp at h

theorem writesFrom_append (h : Int) (as bs : List Action) :
    writesFrom h (as ++ bs) = writesFrom h as ++ writesFrom (as.foldl Action.head h) bs := by
  induction as generalizing h with
  | nil => rfl
  | cons a as ih =>
    cases a with
    | read | move | rewind => exact ih _
    | write c => exact congrArg ((h, c) :: ·) (ih h)

/-- A write makes its symbol the last one at the head; no other action changes what was written last. -/
theorem lastWritten?_append_write (actions : List Action) (c : Char) (p : Int) :
    lastWritten? (actions ++ [.write c]) p = if p = headAfter actions then some c else lastWritten? actions p := by
  rw [lastWritten?, writesFrom_append, List.reverse_append]
  change Option.map Prod.snd (List.find? _ ((headAfter actions, c) :: (writesFrom 0 actions).reverse)) = _
  rw [List.find?_cons]
  split
  · next h => rw [if_pos (beq_iff_eq.mp h).symm, Option.map_some]
  · next h => rw [if_neg (Ne.symm (beq_eq_false_iff_ne.mp h)), lastWritten?]

theorem lastWritten?_append_of_not_write (actions : List Action) {a : Action} (h : ∀ c, a ≠ .write c) (p : Int) :
    lastWritten? (actions ++ [a]) p = lastWritten? actions p := by
  have hnone : writesFrom (headAfter actions) [a] = [] := by
    cases a with
    | write c => exact absurd rfl (h c)
    | read | move | rewind => rfl
  rw [lastWritten?, writesFrom_append]
  change ((writesFrom 0 actions ++ writesFrom (headAfter actions) [a]).reverse.find? _).map Prod.snd = _
  rw [hnone, List.append_nil, lastWritten?]

theorem symbolAt_append_write (blank : Char) (seed : List Char) (actions : List Action) (c : Char) (p : Int) :
    symbolAt blank seed (actions ++ [.write c]) p =
      if p = headAfter actions then c else symbolAt blank seed actions p := by
  rw [symbolAt, lastWritten?_append_write]
  split <;> rfl

theorem symbolAt_append_of_not_write (blank : Char) (seed : List Char) (actions : List Action) {a : Action}
    (h : ∀ c, a ≠ .write c) (p : Int) : symbolAt blank seed (actions ++ [a]) p = symbolAt blank seed actions p := by
  rw [symbolAt, lastWritten?_append_of_not_write actions h, symbolAt]

/-! ## The visited positions -/

/-- Position 0, the positions of the seed, and every position the head has held. -/
def visited (seed : List Char) (actions : List Action) : Set Int :=
  {p | p = 0 ∨ (0 ≤ p ∧ p < seed.length) ∨ p ∈ headsHeld actions}

theorem zero_mem_visited (seed : List Char) (actions : List Action) : 0 ∈ visited seed actions := Or.inl rfl

/-- An empty seed leaves position 0 visited, as a seed of one symbol does. -/
theorem mem_visited_nil {seed : List Char} {p : Int} :
    p ∈ visited seed [] ↔ 0 ≤ p ∧ p ≤ (seed.length - 1 : Nat) := by
  simp only [visited, headsHeld, List.scanl_nil, List.mem_singleton, Set.mem_ofPred_eq]
  omega

theorem visited_append_singleton (seed : List Char) (actions : List Action) (a : Action) :
    visited seed (actions ++ [a]) = insert (headAfter (actions ++ [a])) (visited seed actions) := by
  ext p
  simp only [visited, headsHeld_append_singleton, Set.mem_ofPred_eq, Set.mem_insert_iff, List.mem_append,
    List.mem_singleton]
  tauto

end TapeMachines.Tape
