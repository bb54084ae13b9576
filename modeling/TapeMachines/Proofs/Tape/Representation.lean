import TapeMachines.Proofs.Tape.Sparse
import TapeMachines.Proofs.Tape.Stretch
import TapeMachines.Proofs.Tape.Window
/-!
# Two tapes, one view

The tape as cells around the head and the sparse map look the same after the same actions: each action
keeps `Shows`, so every list of actions does. What either of them holds, stores and has visited is then
told by the actions alone. Main statement: `tape_tells_actions`.
-/

namespace TapeMachines

/-- A look needs no change where the window always holds the head. -/
def Tape.after (t : Tape) : Tape.Action → Tape
  | .read => t
  | .write c => t.put c
  | .move d => t.move d
  | .rewind => t.rewind

def Tape.afterAll (t : Tape) (actions : List Tape.Action) : Tape := actions.foldl Tape.after t

namespace Tape

theorem afterAll_append (t : Tape) (actions more : List Action) :
    t.afterAll (actions ++ more) = (t.afterAll actions).afterAll more := List.foldl_append

theorem blank_after (t : Tape) (a : Action) : (t.after a).blank = t.blank := by
  cases a with
  | read | write => rfl
  | move d => exact blank_move t d
  | rewind => exact blank_rewind t

theorem head_after (t : Tape) (a : Action) : (t.after a).head = a.head t.head := by
  cases a with
  | read | write => rfl
  | move d => exact head_move t d
  | rewind => exact head_rewind t

theorem leftmost_after (t : Tape) (a : Action) : (t.after a).leftmost = min t.leftmost (t.after a).head := by
  cases a with
  | read | write => exact (Int.min_eq_left t.leftmost_le_head).symm
  | move d => rw [after, leftmost_move, head_move]
  | rewind => rw [after, leftmost_rewind, head_rewind]

theorem rightmost_after (t : Tape) (a : Action) : (t.after a).rightmost = max t.rightmost (t.after a).head := by
  cases a with
  | read | write => exact (Int.max_eq_left t.head_le_rightmost).symm
  | move d => rw [after, rightmost_move, head_move]
  | rewind => rw [after, rightmost_rewind, head_rewind]

theorem get_after_of_not_write (t : Tape) {a : Action} (h : ∀ c, a ≠ .write c) (p : Int) :
    (t.after a).get p = t.get p := by
  cases a with
  | read => rfl
  | write c => exact absurd rfl (h c)
  | move d => exact get_move t d p
  | rewind => exact get_rewind t p

end Tape

namespace SparseTape

/-- Every look at the one tape is the same look at the other. -/
structure Shows (s : SparseTape) (t : Tape) : Prop where
  blank : s.blank = t.blank
  head : s.head = t.head
  get : ∀ p, s.get p = t.get p
  symbol : s.symbol = t.symbol
  lowest : s.lowest = t.leftmost
  highest : s.highest = t.rightmost
  isStored : ∀ p, s.isStored p = t.isNonblank p
  stored : s.stored = t.nonblanks

/-- What is stored needs no look of its own where the map is sound. -/
theorem Sound.shows {s : SparseTape} (hs : s.Sound) {t : Tape} (hblank : s.blank = t.blank) (hhead : s.head = t.head)
    (hget : ∀ p, s.get p = t.get p) (hlowest : s.lowest = t.leftmost) (hhighest : s.highest = t.rightmost) :
    s.Shows t where
  blank := hblank
  head := hhead
  get := hget
  symbol := by rw [SparseTape.symbol, hget, hhead, Tape.get_head]
  lowest := hlowest
  highest := hhighest
  isStored p := by
    rw [Bool.eq_iff_iff, hs.isStored_iff, hget, hblank, Tape.isNonblank, bne_iff_ne]
  stored := by
    obtain ⟨ps, hps, hstored⟩ := hs.exists_stored
    obtain ⟨qs, hqs, hnonblanks⟩ := t.exists_nonblanks
    have heq : ps = qs := by
      ext p
      rw [hps, hqs, hget, hblank]
    rw [hstored, hnonblanks, heq]

theorem Shows.after {s : SparseTape} {t : Tape} (hs : s.Sound) (h : s.Shows t) (a : Tape.Action) :
    (s.after a).Shows (t.after a) := by
  have hhead : (s.after a).head = (t.after a).head := by
    rw [head_after, Tape.head_after, h.head]
  have hget : ∀ p, (s.after a).get p = (t.after a).get p := by
    intro p
    rcases a.write_or_not with ⟨c, rfl⟩ | hw
    · rw [SparseTape.after, Tape.after, get_write, Tape.get_put, h.head, h.get]
    · rw [get_after_of_not_write s hw, Tape.get_after_of_not_write t hw, h.get]
  refine (hs.after a).shows ?_ hhead hget ?_ ?_
  · rw [blank_after, Tape.blank_after, h.blank]
  · rw [lowest_after, Tape.leftmost_after, h.lowest, hhead]
  · rw [highest_after, Tape.rightmost_after, h.highest, hhead]

theorem Shows.afterAll {s : SparseTape} {t : Tape} (hs : s.Sound) (h : s.Shows t) (actions : List Tape.Action) :
    (s.afterAll actions).Shows (t.afterAll actions) := by
  induction actions generalizing s t with
  | nil => exact h
  | cons a actions ih => exact ih (hs.after a) (h.after hs a)

theorem Shows.ofList (blank : Char) (seed : List Char) : (SparseTape.ofList blank seed).Shows (Tape.ofList blank seed) := by
  refine (Sound.ofList blank seed).shows ?_ ?_ ?_ ?_ ?_
  · rw [blank_ofList]
    cases seed <;> rfl
  · rw [head_ofList, Tape.head_ofList]
  · intro p
    rw [get_ofList, Tape.get_ofList_eq_seedAt?]
  · rw [lowest_ofList, Tape.leftmost_ofList]
  · rw [highest_ofList, Tape.rightmost_ofList]

/-- What a tape holds, what it stores and which positions it has visited, told by its seed and the actions
alone. A tape that starts empty is the one with the empty seed. -/
theorem tape_tells_actions (blank : Char) (seed : List Char) (actions : List Tape.Action) :
    let s := (ofList blank seed).afterAll actions
    (∀ p, s.get p = Tape.symbolAt blank seed actions p) ∧
    (∀ p, s.isStored p = true ↔ s.get p ≠ blank) ∧
    (∃ ps : Finset Int, (∀ p, p ∈ ps ↔ s.get p ≠ blank) ∧ s.stored = ps.card) ∧
    IsLeast (Tape.visited seed actions) s.lowest ∧
    IsGreatest (Tape.visited seed actions) s.highest ∧
    (s.lowest ≤ 0 ∧ 0 ≤ s.highest) ∧
    (s.lowest ≤ s.head ∧ s.head ≤ s.highest) ∧
    (∀ p, s.isStored p = true → s.lowest ≤ p ∧ p ≤ s.highest) ∧
    s.read = (s.symbol, s) ∧
    s.head = Tape.headAfter actions ∧
    s.Shows ((Tape.ofList blank seed).afterAll actions) := by
  intro s
  have hsound : s.Sound := (Sound.ofList blank seed).afterAll actions
  have hblank : s.blank = blank := (blank_afterAll _ actions).trans (blank_ofList blank seed)
  have hstored := hsound.isStored_iff
  have hcount := hsound.exists_stored
  rw [hblank] at hstored hcount
  have hlowest := isLeast_lowest blank seed actions
  have hhighest := isGreatest_highest blank seed actions
  have hzero := Tape.zero_mem_visited seed actions
  have hwithin : ∀ p, s.isStored p = true → s.lowest ≤ p ∧ p ≤ s.highest := by
    intro p hp
    rw [isStored, Std.TreeMap.contains_eq_isSome_getElem?] at hp
    exact hsound.within p hp
  have hshows := (Shows.ofList blank seed).afterAll (Sound.ofList blank seed) actions
  exact ⟨get_afterAll blank seed actions, hstored, hcount, hlowest, hhighest, ⟨hlowest.2 hzero, hhighest.2 hzero⟩,
    hsound.head, hwithin, hsound.read_eq, head_afterAll blank seed actions, hshows⟩

end SparseTape

end TapeMachines
