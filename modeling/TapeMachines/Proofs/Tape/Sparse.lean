import TapeMachines.Proofs.Tape.Past
import TapeMachines.Tape.Sparse
/-!
# What a sparse map keeps

Nothing in the type of a `SparseTape` keeps blanks out of the map, or the map inside the bounds. `Sound`
says that both hold, and `Sound.after` that every action keeps it so.
-/

namespace TapeMachines.SparseTape

def after (s : SparseTape) : Tape.Action → SparseTape
  | .read => s.read.2
  | .write c => s.write c
  | .move d => s.move d
  | .rewind => s.rewind

def afterAll (s : SparseTape) (actions : List Tape.Action) : SparseTape := actions.foldl after s

/-! ## What an action does -/

/-- Every action ends with a touch. -/
theorem after_eq_touch (s : SparseTape) (a : Tape.Action) :
    s.after a = touch { s with cells := (s.after a).cells, head := a.head s.head } := by
  cases a with
  | read | write | rewind => rfl
  | move d =>
    cases d with
    | left | right => rfl
    | stay => simp [after, move, touch, Tape.Action.head, Direction.offset]

@[simp] theorem blank_after (s : SparseTape) (a : Tape.Action) : (s.after a).blank = s.blank := by
  rw [after_eq_touch]
  rfl

theorem head_after (s : SparseTape) (a : Tape.Action) : (s.after a).head = a.head s.head := by
  rw [after_eq_touch]
  rfl

theorem lowest_after (s : SparseTape) (a : Tape.Action) : (s.after a).lowest = min s.lowest (s.after a).head := by
  rw [after_eq_touch]
  rfl

theorem highest_after (s : SparseTape) (a : Tape.Action) :
    (s.after a).highest = max s.highest (s.after a).head := by
  rw [after_eq_touch]
  rfl

theorem cells_after_of_not_write (s : SparseTape) {a : Tape.Action} (h : ∀ c, a ≠ .write c) :
    (s.after a).cells = s.cells := by
  cases a with
  | write c => exact absurd rfl (h c)
  | read | rewind => rfl
  | move d => cases d <;> rfl

theorem getElem?_cells_write (s : SparseTape) (c : Char) (p : Int) :
    (s.write c).cells[p]? = if p = s.head then (if c = s.blank then none else some c) else s.cells[p]? := by
  have hkey : compare s.head p = .eq ↔ p = s.head := Int.compare_eq_eq.trans eq_comm
  unfold write touch
  split
  · simp only [Std.TreeMap.getElem?_erase, hkey]
  · simp only [Std.TreeMap.getElem?_insert, hkey]

/-- A write changes the cell at the head; no other cell changes, and no other action changes a cell. -/
theorem cells_after (s : SparseTape) (a : Tape.Action) (p : Int) :
    (s.after a).cells[p]? = s.cells[p]? ∨
      ∃ c, a = .write c ∧ p = s.head ∧ (s.after a).cells[p]? = if c = s.blank then none else some c := by
  rcases a.write_or_not with ⟨c, rfl⟩ | h
  · have hwrite := s.getElem?_cells_write c p
    by_cases hp : p = s.head
    · rw [if_pos hp] at hwrite
      exact .inr ⟨c, rfl, hp, hwrite⟩
    · rw [if_neg hp] at hwrite
      exact .inl hwrite
  · rw [cells_after_of_not_write s h]
    exact .inl rfl

theorem get_after_of_not_write (s : SparseTape) {a : Tape.Action} (h : ∀ c, a ≠ .write c) (p : Int) :
    (s.after a).get p = s.get p := by
  rw [get, cells_after_of_not_write s h, blank_after, get]

theorem get_write (s : SparseTape) (c : Char) (p : Int) :
    (s.write c).get p = if p = s.head then c else s.get p := by
  have hblank : (s.write c).blank = s.blank := rfl
  unfold get
  rw [getElem?_cells_write, hblank]
  by_cases hp : p = s.head
  · by_cases hc : c = s.blank
    · simp [hp, hc]
    · simp [hp, hc]
  · simp [hp]

/-! ## What every tape keeps -/

structure Sound (s : SparseTape) : Prop where
  /-- No blank is stored. -/
  sparse : ∀ p : Int, s.cells[p]? ≠ some s.blank
  /-- What is stored lies between the bounds. -/
  within : ∀ p : Int, s.cells[p]?.isSome → s.lowest ≤ p ∧ p ≤ s.highest
  head : s.lowest ≤ s.head ∧ s.head ≤ s.highest

theorem Sound.after {s : SparseTape} (h : s.Sound) (a : Tape.Action) : (s.after a).Sound := by
  have hlowest := s.lowest_after a
  have hhighest := s.highest_after a
  refine ⟨?sparse, ?within, by omega⟩
  case sparse =>
    intro p
    rw [blank_after]
    rcases s.cells_after a p with hsame | ⟨c, -, -, hcell⟩
    · rw [hsame]
      exact h.sparse p
    · rw [hcell]
      split
      · nofun
      · next hc => simpa using hc
  case within =>
    intro p hp
    rcases s.cells_after a p with hsame | ⟨c, rfl, rfl, -⟩
    · rw [hsame] at hp
      have hold := h.within p hp
      omega
    · -- The bounds were just widened to the head, where the cell is.
      have hhead := s.head_after (.write c)
      simp only [Tape.Action.head] at hhead
      omega

theorem Sound.isStored_iff {s : SparseTape} (h : s.Sound) (p : Int) : s.isStored p = true ↔ s.get p ≠ s.blank := by
  have hsparse := h.sparse p
  rw [isStored, Std.TreeMap.contains_eq_isSome_getElem?, get]
  cases hcell : s.cells[p]? with
  | none => simp
  | some c =>
    rw [hcell] at hsparse
    simpa using hsparse

theorem Sound.exists_stored {s : SparseTape} (h : s.Sound) :
    ∃ ps : Finset Int, (∀ p, p ∈ ps ↔ s.get p ≠ s.blank) ∧ s.stored = ps.card := by
  have hnodup : s.cells.keys.Nodup := Std.TreeMap.distinct_keys.imp fun hne heq => hne (Int.compare_eq_eq.mpr heq)
  refine ⟨s.cells.keys.toFinset, ?_, ?_⟩
  · intro p
    rw [List.mem_toFinset, Std.TreeMap.mem_keys, ← h.isStored_iff p]
    exact Std.TreeMap.mem_iff_contains
  · rw [List.toFinset_card_of_nodup hnodup, Std.TreeMap.length_keys, stored]

-- The `a` is erased, the `b` and the `c` are stored.
example : ((ofList '_' ['a', '_', 'b']).afterAll [.move .right, .write 'c', .rewind, .write '_']).stored = 2 := by
  decide

/-- A look changes nothing: the head lies between the bounds already. -/
theorem Sound.read_eq {s : SparseTape} (h : s.Sound) : s.read = (s.symbol, s) := by
  have htouch : s.touch = s := by
    rw [touch, Int.min_eq_left h.head.1, Int.max_eq_left h.head.2]
  rw [read, htouch]

/-! ## The seeded tape -/

theorem ofList_append_singleton (blank : Char) (seed : List Char) (c : Char) :
    ofList blank (seed ++ [c]) = (ofList blank seed).place c seed.length := by
  simp [ofList, List.zipIdx_append]

/-- Seeding visits the positions of the seed and stores its symbols but for the blanks. -/
theorem exists_ofList_eq (blank : Char) (seed : List Char) :
    ∃ cells, ofList blank seed = ⟨blank, cells, 0, 0, (seed.length - 1 : Nat)⟩ ∧
      ∀ p : Int, cells[p]? = (Tape.seedAt? seed p).filter (· != blank) := by
  induction seed using List.reverseRecOn with
  | nil => exact ⟨∅, rfl, by simp [Tape.seedAt?]⟩
  | append_singleton seed c ih =>
    obtain ⟨cells, hseed, hcells⟩ := ih
    refine ⟨if c = blank then cells else cells.insert seed.length c, ?_, ?_⟩
    · rw [ofList_append_singleton, hseed]
      simp [place]
    · intro p
      rw [Tape.seedAt?_append_singleton]
      by_cases hc : c = blank
      · rw [if_pos hc, hcells]
        by_cases hp : p = seed.length
        · simp [hp, hc, Tape.seedAt?, Option.filter_some]
        · rw [if_neg hp]
      · have hkey : compare (seed.length : Int) p = .eq ↔ p = seed.length := Int.compare_eq_eq.trans eq_comm
        rw [if_neg hc, Std.TreeMap.getElem?_insert]
        simp only [hkey, hcells]
        by_cases hp : p = seed.length
        · rw [if_pos hp, if_pos hp, Option.filter_some, if_pos (bne_iff_ne.mpr hc)]
        · rw [if_neg hp, if_neg hp]

@[simp] theorem blank_ofList (blank : Char) (seed : List Char) : (ofList blank seed).blank = blank := by
  obtain ⟨cells, h, -⟩ := exists_ofList_eq blank seed
  rw [h]

@[simp] theorem head_ofList (blank : Char) (seed : List Char) : (ofList blank seed).head = 0 := by
  obtain ⟨cells, h, -⟩ := exists_ofList_eq blank seed
  rw [h]

@[simp] theorem lowest_ofList (blank : Char) (seed : List Char) : (ofList blank seed).lowest = 0 := by
  obtain ⟨cells, h, -⟩ := exists_ofList_eq blank seed
  rw [h]

@[simp] theorem highest_ofList (blank : Char) (seed : List Char) :
    (ofList blank seed).highest = (seed.length - 1 : Nat) := by
  obtain ⟨cells, h, -⟩ := exists_ofList_eq blank seed
  rw [h]

theorem getElem?_cells_ofList (blank : Char) (seed : List Char) (p : Int) :
    (ofList blank seed).cells[p]? = (Tape.seedAt? seed p).filter (· != blank) := by
  obtain ⟨cells, h, hcells⟩ := exists_ofList_eq blank seed
  rw [h, hcells]

theorem get_ofList (blank : Char) (seed : List Char) (p : Int) :
    (ofList blank seed).get p = (Tape.seedAt? seed p).getD blank := by
  rw [get, getElem?_cells_ofList, blank_ofList]
  cases Tape.seedAt? seed p with
  | none => rfl
  | some c =>
    rw [Option.filter_some]
    split
    · rfl
    · next hc => exact (by simpa using hc : c = blank).symm

theorem Sound.ofList (blank : Char) (seed : List Char) : (SparseTape.ofList blank seed).Sound := by
  refine ⟨?sparse, ?within, ?head⟩
  case sparse =>
    intro p
    rw [getElem?_cells_ofList, blank_ofList]
    simp [Option.filter_eq_some_iff]
  case within =>
    intro p hp
    rw [getElem?_cells_ofList] at hp
    have hseed := Tape.lt_length_of_seedAt? (Option.isSome_of_isSome_filter _ _ hp)
    rw [lowest_ofList, highest_ofList]
    omega
  case head =>
    rw [lowest_ofList, highest_ofList, head_ofList]
    omega

/-! ## After a list of actions -/

theorem afterAll_append_singleton (s : SparseTape) (actions : List Tape.Action) (a : Tape.Action) :
    s.afterAll (actions ++ [a]) = (s.afterAll actions).after a := by
  rw [afterAll, List.foldl_append]
  rfl

theorem Sound.afterAll {s : SparseTape} (h : s.Sound) (actions : List Tape.Action) : (s.afterAll actions).Sound := by
  induction actions generalizing s with
  | nil => exact h
  | cons a actions ih => exact ih (h.after a)

theorem blank_afterAll (s : SparseTape) (actions : List Tape.Action) : (s.afterAll actions).blank = s.blank := by
  induction actions generalizing s with
  | nil => rfl
  | cons a actions ih => exact (ih (s.after a)).trans (s.blank_after a)

section Seeded

variable (blank : Char) (seed : List Char) (actions : List Tape.Action)

theorem head_afterAll : ((ofList blank seed).afterAll actions).head = Tape.headAfter actions := by
  induction actions using List.reverseRecOn with
  | nil => exact head_ofList blank seed
  | append_singleton actions a ih =>
    rw [afterAll_append_singleton, head_after, ih, Tape.headAfter_append_singleton]

theorem get_afterAll (p : Int) :
    ((ofList blank seed).afterAll actions).get p = Tape.symbolAt blank seed actions p := by
  induction actions using List.reverseRecOn with
  | nil => exact get_ofList blank seed p
  | append_singleton actions a ih =>
    rw [afterAll_append_singleton]
    rcases a.write_or_not with ⟨c, rfl⟩ | h
    · rw [Tape.symbolAt_append_write, ← ih, ← head_afterAll blank seed actions]
      exact get_write _ c p
    · rw [Tape.symbolAt_append_of_not_write _ _ _ h, get_after_of_not_write _ h, ih]

theorem isLeast_lowest : IsLeast (Tape.visited seed actions) ((ofList blank seed).afterAll actions).lowest := by
  induction actions using List.reverseRecOn with
  | nil =>
    rw [afterAll, List.foldl_nil, lowest_ofList]
    exact ⟨Tape.zero_mem_visited seed [], fun p hp => (Tape.mem_visited_nil.1 hp).1⟩
  | append_singleton actions a ih =>
    rw [Tape.visited_append_singleton, ← head_afterAll blank seed, afterAll_append_singleton, lowest_after, min_comm]
    exact ih.insert _

theorem isGreatest_highest :
    IsGreatest (Tape.visited seed actions) ((ofList blank seed).afterAll actions).highest := by
  induction actions using List.reverseRecOn with
  | nil =>
    rw [afterAll, List.foldl_nil, highest_ofList]
    exact ⟨Tape.mem_visited_nil.2 ⟨Int.natCast_nonneg _, Int.le_refl _⟩, fun p hp => (Tape.mem_visited_nil.1 hp).2⟩
  | append_singleton actions a ih =>
    rw [Tape.visited_append_singleton, ← head_afterAll blank seed, afterAll_append_singleton, highest_after, max_comm]
    exact ih.insert _

end Seeded

end TapeMachines.SparseTape
