import Mathlib.Algebra.Group.Nat.Defs
import TapeMachines.Proofs.Reach
import TapeMachines.Proofs.Runs
/-!
# How far any calls take a machine

What a tape was last seeded from, and how many steps were taken since, can be told from the calls and what they gave
back (`Seeding.told`): an accepted input seeds a new tape, a reset seeds a Turing machine's tape again and leaves a
Post machine's as it is. These steps bound how far the head is from position 0, how far the visited window reaches
and how many cells are stored, whatever the calls were, and the counted steps bound the head too (`Machine.Grown`).
Main statement: `growth_bounded_by_steps`.
-/

namespace TapeMachines

/-! ## Seedings -/

/-- What the tape was last seeded from, and the steps taken since. -/
structure Seeding where
  seed : List Char
  steps : Nat

namespace Seeding

def more (s : Seeding) (taken : Nat) : Seeding := ⟨s.seed, s.steps + taken⟩

/-- What a reset makes of it: a Post machine keeps its tape. -/
def restarted (s : Seeding) : Kind → Seeding
  | .post => s
  | .turing => ⟨s.seed, 0⟩

/-- What a call and its reply tell. -/
def after (kind : Kind) (s : Seeding) : Call → Reply → Seeding
  | .step, .outcome (.went _) => s.more 1
  | .run _, .steps taken => s.more taken
  | .load input, .loaded none => ⟨input.toList, 0⟩
  | .reset, _ => s.restarted kind
  | _, _ => s

/-- What calls and their replies tell, one after the other. -/
def told (kind : Kind) (s : Seeding) (calls : List Call) (replies : List Reply) : Seeding :=
  (calls.zip replies).foldl (fun s exchange => s.after kind exchange.1 exchange.2) s

end Seeding

/-! ## Stored cells -/

namespace Tape

variable {t t' : Tape}

theorem nonblanks_congr (hblank : t'.blank = t.blank) (hget : ∀ q, t'.get q = t.get q) :
    t'.nonblanks = t.nonblanks := by
  obtain ⟨ps, hps, hcard⟩ := t.exists_nonblanks
  obtain ⟨ps', hps', hcard'⟩ := t'.exists_nonblanks
  have heq : ps' = ps := by
    ext q
    rw [hps, hps', hget, hblank]
  rw [hcard, hcard', heq]

theorem nonblanks_put_le (t : Tape) (c : Char) : (t.put c).nonblanks ≤ t.nonblanks + 1 := by
  simp only [nonblanks, render, put, List.countP_append, List.countP_cons]
  split <;> split <;> omega

theorem nonblanks_move (t : Tape) (d : Direction) : (t.move d).nonblanks = t.nonblanks :=
  nonblanks_congr (t.blank_move d) (t.get_move d)

/-- A step writes one cell at most. -/
theorem nonblanks_perform_le (t : Tape) (write : Option Char) (d : Direction) :
    (t.perform write d).nonblanks ≤ t.nonblanks + 1 := by
  cases write with
  | none =>
    rw [perform, nonblanks_move]
    omega
  | some c =>
    rw [perform, nonblanks_move]
    exact t.nonblanks_put_le c

theorem nonblanks_rewind (t : Tape) : t.rewind.nonblanks = t.nonblanks :=
  nonblanks_congr t.blank_rewind t.get_rewind

theorem nonblanks_ofList (blank : Char) (seed : List Char) :
    (ofList blank seed).nonblanks = seed.countP (· != blank) := by
  cases seed with
  | nil => simp [ofList, empty, nonblanks, render]
  | cons c cs => rfl

theorem WithinReach.rewind {n k : Nat} (h : t.WithinReach n k) : t.rewind.WithinReach n k where
  leftmost := by
    have := h.leftmost
    rw [leftmost_rewind]
    omega
  rightmost := by
    have := h.rightmost
    rw [rightmost_rewind]
    omega
  head := by
    rw [head_rewind]
    omega

end Tape

/-! ## Machines -/

/-- The tape of `m` has grown from a seed by no more than the steps taken since, and its head is no further from
position 0 than the steps counted. -/
structure Machine.Grown {κ : Type} (m : Machine κ) (s : Seeding) : Prop where
  /-- What a reset may bring back is the seed. -/
  input : m.input = s.seed
  reach : m.tape.WithinReach s.seed.length s.steps
  stored : m.tape.nonblanks ≤ s.seed.countP (· != m.unit.blank) + s.steps
  head : m.tape.head.natAbs ≤ m.stepCount

namespace Machine.Grown

variable {κ : Type} {m : Machine κ} {s : Seeding}

theorem on (a : Automaton κ) (input : List Char) : (a.on input).Grown ⟨input, 0⟩ where
  input := rfl
  reach := Tape.withinReach_ofList _ input
  stored := Nat.le_of_eq (Tape.nonblanks_ofList _ input)
  head := by
    rw [Automaton.on, Tape.head_ofList]
    exact Nat.le_refl 0

theorem withTape (m : Machine κ) (input : List Char) : (m.withTape input).Grown ⟨input, 0⟩ where
  input := rfl
  reach := Tape.withinReach_ofList _ input
  stored := Nat.le_of_eq (Tape.nonblanks_ofList _ input)
  head := by
    rw [Machine.withTape, Tape.head_ofList]
    exact Nat.zero_le _

/-- A call that takes a step counts one step more since the seeding. -/
theorem next (h : m.Grown s) : m.next.Grown (s.more (if m.step.2.isStep then 1 else 0)) := by
  obtain ⟨hinput, hreach, hstored, hhead⟩ := h
  unfold Machine.next
  refine m.step_cases ?_ ?_ ?_
  · intro _
    exact ⟨hinput, hreach, hstored, hhead⟩
  · intro reason instruction _ _
    exact ⟨hinput, hreach, hstored, hhead⟩
  · intro instruction write move next _ _
    refine ⟨hinput, hreach.perform write move, ?_, ?_⟩
    · exact Nat.le_trans (m.tape.nonblanks_perform_le write move) (Nat.succ_le_succ hstored)
    · have hoffset : -1 ≤ move.offset ∧ move.offset ≤ 1 := by cases move <;> decide
      show (m.tape.perform write move).head.natAbs ≤ m.stepCount + 1
      rw [Tape.head_perform]
      omega

theorem iterate (h : m.Grown s) (n : Nat) : (Machine.next^[n] m).Grown (s.more (m.stepsIn n)) := by
  induction n generalizing m s with
  | zero => exact h
  | succ n ih =>
    have hn := ih h.next
    rwa [Seeding.more, Seeding.more, Nat.add_assoc, ← stepsIn_succ, ← Function.iterate_succ_apply] at hn

/-- A Post machine rewinds a tape that keeps its seeding, a Turing machine seeds its tape with the last input again. -/
theorem reset {p : Program} {m : Machine p.Control} (hu : m.unit = p.automaton) (h : m.Grown s) :
    m.reset.Grown (s.restarted p.kind) := by
  obtain ⟨hinput, hreach, hstored, -⟩ := h
  rw [reset_eq_onTape hu]
  rw [hu] at hstored
  cases p with
  | post p =>
    refine ⟨hinput, hreach.rewind, ?_, ?_⟩
    · show m.tape.rewind.nonblanks ≤ _
      rw [Tape.nonblanks_rewind]
      exact hstored
    · show m.tape.rewind.head.natAbs ≤ 0
      rw [Tape.head_rewind]
      exact Nat.le_refl 0
  | turing p =>
    rw [hinput]
    exact Grown.on p.automaton s.seed

theorem after {p : Program} {m : Machine p.Control} (hu : m.unit = p.automaton) (h : m.Grown s) (call : Call) :
    (m.after call).Grown (s.after p.kind call (m.reply call)) := by
  cases call with
  | step =>
    have hn := h.next
    show m.next.Grown (s.after p.kind .step (.outcome m.step.2))
    cases hs : m.step.2 with
    | went label =>
      rw [hs] at hn
      exact hn
    | stopped reason | idle =>
      rw [hs] at hn
      exact hn
  | run bound =>
    show (m.run bound).1.Grown (s.more (m.run bound).2)
    rw [run_eq]
    exact h.iterate bound
  | load input =>
    show (m.after (.load input)).Grown (s.after p.kind (.load input) (.loaded (m.unit.foreign? input.toList)))
    rw [Machine.after, load]
    cases m.unit.foreign? input.toList with
    | some found => exact h
    | none => exact Grown.withTape m input.toList
  | reset => exact h.reset hu

theorem afterAll {p : Program} {m : Machine p.Control} (hu : m.unit = p.automaton) (h : m.Grown s)
    (calls : List Call) : (m.afterAll calls).Grown (s.told p.kind calls (m.replies calls)) := by
  induction calls generalizing m s with
  | nil => exact h
  | cons call calls ih => exact ih ((m.unit_after call).trans hu) (h.after hu call)

/-- The window holds the head, and so the steps since the seeding bound it too. -/
theorem head_le_steps (h : m.Grown s) : m.tape.head.natAbs ≤ s.steps := by
  have hleft := h.reach.leftmost
  have hright := h.reach.head
  have hinside := m.tape.leftmost_le_head
  omega

end Machine.Grown

/-! ## Main theorem -/

/-- A position that a word of 64 bits with sign can hold. -/
def Tape.FitsWord (q : Int) : Prop := -2 ^ 63 ≤ q ∧ q < 2 ^ 63

/-- After any calls the head is no further from position 0 than the steps counted. The window reaches no further than
the steps since the last seeding, except for the seed's own cells, and no more cells are stored than the seed had and
these steps may have written. So as long as neither the seed nor the steps since are too many for 64 bits, neither the
bounds nor the head are, and no more is the head after a step that is among these. -/
theorem growth_bounded_by_steps (p : Program) (input : String) (m₀ : Machine p.Control) (h : p.start input = .ok m₀)
    (calls : List Call) :
    let m := m₀.afterAll calls
    let s := Seeding.told p.kind ⟨input.toList, 0⟩ calls (m₀.replies calls)
    m.tape.head.natAbs ≤ m.stepCount ∧
    -(s.steps : Int) ≤ m.tape.leftmost ∧
    m.tape.rightmost ≤ max ((s.seed.length : Int) - 1) s.steps ∧
    m.tape.nonblanks ≤ s.seed.countP (· != p.automaton.blank) + s.steps ∧
    (s.seed.length < 2 ^ 63 →
      (s.steps < 2 ^ 63 → Tape.FitsWord m.tape.head ∧ Tape.FitsWord m.tape.leftmost ∧ Tape.FitsWord m.tape.rightmost) ∧
      (s.steps + 1 < 2 ^ 63 → ∀ d : Direction, Tape.FitsWord (m.tape.head + d.offset))) := by
  intro m s
  obtain ⟨-, rfl⟩ := Automaton.start_eq_ok_iff.1 h
  have hgrown : m.Grown s := (Machine.Grown.on p.automaton input.toList).afterAll rfl calls
  have hu : m.unit = p.automaton := Machine.unit_afterAll _ calls
  have hstored := hgrown.stored
  have hleft := hgrown.reach.leftmost
  have hright := hgrown.reach.rightmost
  have hhead := hgrown.head_le_steps
  have hinside := m.tape.leftmost_le_head
  have hinside' := m.tape.head_le_rightmost
  rw [hu] at hstored
  refine ⟨hgrown.head, hleft, by omega, hstored, fun hseed => ⟨fun hsteps => ?_, fun hsteps d => ?_⟩⟩
  · unfold Tape.FitsWord
    omega
  · have hoffset : -1 ≤ d.offset ∧ d.offset ≤ 1 := by cases d <;> decide
    unfold Tape.FitsWord
    omega

/-- A Turing machine that fills the cells to its left, is given a longer tape, erases it, and is reset: one step has
been taken since, and the cell that it erased was the seed's. -/
theorem growth_bounded_by_steps_across_resets :
    let p : Program := .turing ⟨[⟨"0", '_', "0", 'x', .left⟩, ⟨"0", '1', "0", '_', .left⟩], []⟩
    let calls : List Call := [.run 3, .load "11", .run 4, .reset, .step]
    ∃ m₀, p.start "1" = .ok m₀ ∧
      let m := m₀.afterAll calls
      let s := Seeding.told p.kind ⟨['1'], 0⟩ calls (m₀.replies calls)
      (s.seed = ['1', '1'] ∧ s.steps = 1) ∧
      (m.stepCount = 1 ∧ m.tape.head = -1 ∧ m.tape.leftmost = -1 ∧ m.tape.rightmost = 1 ∧ m.tape.nonblanks = 1) ∧
      m.tape.head.natAbs ≤ m.stepCount ∧ -(s.steps : Int) ≤ m.tape.leftmost ∧
      m.tape.rightmost ≤ max ((s.seed.length : Int) - 1) s.steps ∧
      m.tape.nonblanks ≤ s.seed.countP (· != p.automaton.blank) + s.steps ∧
      ∀ d : Direction, Tape.FitsWord (m.tape.head + d.offset) := by
  intro p calls
  obtain ⟨hhead, hleft, hright, hstored, hword⟩ := growth_bounded_by_steps p "1" _ rfl calls
  exact ⟨_, rfl, by decide, by decide, hhead, hleft, hright, hstored, (hword (by decide)).2 (by decide)⟩

end TapeMachines
