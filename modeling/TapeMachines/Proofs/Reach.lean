import TapeMachines.Proofs.Snapshots
/-!
# How far a machine gets

A step moves the head by one cell at most, and the visited window grows no faster. So `k` steps on a tape seeded
with `n` symbols leave the head within `k` of position 0, and the window within `k` of the seed's own
(`Tape.WithinReach`). Snapshots keep to these bounds too, because what they show of a tape begins inside its
window. `withinReach_run` says so of the status and the whole log after a run.
-/

namespace TapeMachines

/-! ## Tapes -/

namespace Tape

/-- The tape keeps to what `k` steps can reach from a seed of `n` symbols. -/
structure WithinReach (n k : Nat) (t : Tape) : Prop where
  leftmost : -k ≤ t.leftmost
  rightmost : t.rightmost ≤ max (n - 1) k
  head : t.head ≤ k

variable {n k : Nat} {t : Tape}

theorem WithinReach.mono (h : t.WithinReach n k) {k' : Nat} (hk : k ≤ k') : t.WithinReach n k' where
  leftmost := by have := h.leftmost; omega
  rightmost := by have := h.rightmost; omega
  head := by have := h.head; omega

theorem withinReach_ofList (blank : Char) (seed : List Char) : (ofList blank seed).WithinReach seed.length 0 where
  leftmost := by rw [leftmost_ofList]; omega
  rightmost := by rw [rightmost_ofList]; omega
  head := by rw [head_ofList]; omega

theorem leftmost_perform (t : Tape) (write : Option Char) (d : Direction) :
    (t.perform write d).leftmost = min t.leftmost (t.head + d.offset) := by
  cases write with
  | none => exact leftmost_move t d
  | some c => exact leftmost_move (t.put c) d

theorem rightmost_perform (t : Tape) (write : Option Char) (d : Direction) :
    (t.perform write d).rightmost = max t.rightmost (t.head + d.offset) := by
  cases write with
  | none => exact rightmost_move t d
  | some c => exact rightmost_move (t.put c) d

theorem WithinReach.perform (h : t.WithinReach n k) (write : Option Char) (d : Direction) :
    (t.perform write d).WithinReach n (k + 1) := by
  obtain ⟨hleft, hright, hhead⟩ := h
  have hinside := t.leftmost_le_head
  have hoffset : -1 ≤ d.offset ∧ d.offset ≤ 1 := by cases d <;> decide
  constructor
  · rw [leftmost_perform]
    omega
  · rw [rightmost_perform]
    omega
  · rw [head_perform]
    omega

end Tape

/-! ## Snapshots -/

structure Snapshot.WithinReach (n k : Nat) (v : Snapshot) : Prop where
  head : -k ≤ v.head ∧ v.head ≤ k
  origin : -k ≤ v.origin ∧ v.origin ≤ max (n - 1) k

theorem Snapshot.WithinReach.mono {n k k' : Nat} {v : Snapshot} (h : v.WithinReach n k) (hk : k ≤ k') :
    v.WithinReach n k' where
  head := by have := h.head; omega
  origin := by have := h.origin; omega

/-- What a program shows of a tape begins in the visited window. -/
theorem Program.origin_within (p : Program) (t : Tape) :
    t.leftmost ≤ (p.automaton.shows t).2 ∧ (p.automaton.shows t).2 ≤ t.rightmost := by
  have hhead := t.leftmost_le_head
  have hhead' := t.head_le_rightmost
  cases p with
  | post p => exact ⟨Int.le_refl _, Int.le_trans hhead hhead'⟩
  | turing p =>
    show t.leftmost ≤ t.contentsOrigin ∧ t.contentsOrigin ≤ t.rightmost
    rcases t.blank_or_contents with hblank | ⟨first, last, he⟩
    · rw [Tape.contentsOrigin_of_blank hblank]
      exact ⟨hhead, hhead'⟩
    · rw [Tape.contentsOrigin_eq he]
      exact ⟨he.leftmost_le, Int.le_trans he.le he.le_rightmost⟩

theorem Program.withinReach_snapshot (p : Program) {n k : Nat} {t : Tape} (h : t.WithinReach n k) :
    (p.automaton.snapshot t).WithinReach n k := by
  obtain ⟨hleft, hright⟩ := p.origin_within t
  have hinside := t.leftmost_le_head
  exact ⟨⟨Int.le_trans h.leftmost hinside, h.head⟩, ⟨Int.le_trans h.leftmost hleft, Int.le_trans hright h.rightmost⟩⟩

/-! ## Machines -/

/-- A machine that keeps to what its counted steps can reach from a seed of `n` symbols, and has logged nothing
beyond that. -/
structure Machine.WithinReach {κ : Type} (n : Nat) (m : Machine κ) : Prop where
  tape : m.tape.WithinReach n m.stepCount
  log : ∀ e ∈ m.log, e.step ≤ m.stepCount ∧ e.snapshot.WithinReach n m.stepCount

namespace Program

variable {p : Program} {m : Machine p.Control} {n : Nat}

theorem withinReach_on (p : Program) (input : List Char) : (p.automaton.on input).WithinReach input.length where
  tape := Tape.withinReach_ofList _ input
  log := nofun

theorem withinReach_next (hu : m.unit = p.automaton) (h : m.WithinReach n) : m.next.WithinReach n := by
  obtain ⟨htape, hlog⟩ := h
  refine m.next_cases (fun _ => ⟨htape, hlog⟩) ?_ ?_
  · intro reason instruction _ _
    refine ⟨htape, ?_⟩
    intro e he
    rcases Array.mem_push.1 he with he | rfl
    · exact hlog e he
    · rw [Machine.snapshot_entry, hu]
      exact ⟨Nat.le_refl _, p.withinReach_snapshot htape⟩
  · intro instruction write move next _ _
    have htape' := htape.perform write move
    refine ⟨htape', ?_⟩
    intro e he
    rcases Array.mem_push.1 he with he | rfl
    · obtain ⟨hstep, hsnapshot⟩ := hlog e he
      exact ⟨Nat.le_succ_of_le hstep, hsnapshot.mono (Nat.le_succ _)⟩
    · rw [Machine.snapshot_entry, hu]
      exact ⟨Nat.le_succ _, p.withinReach_snapshot htape'⟩

/-- A run leaves a machine, its status and its log within what the steps counted can reach. -/
theorem withinReach_run (p : Program) (input : List Char) (bound : Nat) :
    let m := ((p.automaton.on input).run bound).1
    m.WithinReach input.length ∧ m.status.snapshot.WithinReach input.length m.stepCount := by
  intro m
  obtain ⟨hu, h⟩ : m.unit = p.automaton ∧ m.WithinReach input.length := by
    apply Machine.inv_runFrom (I := fun m => m.unit = p.automaton ∧ m.WithinReach input.length)
    · rintro m ⟨hu, h⟩
      exact ⟨m.unit_next.trans hu, withinReach_next hu h⟩
    · exact ⟨rfl, p.withinReach_on input⟩
  refine ⟨h, ?_⟩
  rw [Machine.snapshot_status, hu]
  exact p.withinReach_snapshot h.tape

end Program

end TapeMachines
