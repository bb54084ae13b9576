import TapeMachines.Post.Automaton
import TapeMachines.Proofs.Calls
/-!
# Runs as successive steps

A run with a bound leaves the machine where that many calls of `step` leave it and reports how many of
them took a step (`runFrom_eq`); a halt that lies behind the last of them is not taken. Runs then
compose as iterated steps do. Main statement: `run_is_bounded_stepping`.
-/

namespace TapeMachines

/-- Whether a call took a step. -/
def Outcome.isStep : Outcome → Bool
  | .went _ => true
  | .stopped _ | .idle => false

namespace Machine

variable {κ : Type}

/-- How many of `n` successive calls of `step` take a step. -/
def stepsIn (n : Nat) (m : Machine κ) : Nat :=
  (List.range n).countP fun i => (next^[i] m).step.2.isStep

theorem stepsIn_add (a b : Nat) (m : Machine κ) :
    m.stepsIn (a + b) = m.stepsIn a + (next^[a] m).stepsIn b := by
  rw [stepsIn, List.range_add, List.countP_append, List.countP_map]
  congr 1
  refine List.countP_congr ?_
  intro i _
  rw [Function.comp_apply, Nat.add_comm a i, Function.iterate_add_apply]

theorem stepsIn_succ (n : Nat) (m : Machine κ) :
    m.stepsIn (n + 1) = (if m.step.2.isStep then 1 else 0) + m.next.stepsIn n := by
  rw [Nat.add_comm n 1, stepsIn_add]
  congr 1
  rw [stepsIn, List.range_one, List.countP_singleton]
  rfl

/-! ## After a halt -/

theorem iterate_next_of_halted {m : Machine κ} (h : m.isHalted = true) (n : Nat) : next^[n] m = m :=
  Function.iterate_fixed (next_of_halted h) n

theorem stepsIn_of_halted {m : Machine κ} (h : m.isHalted = true) (n : Nat) : m.stepsIn n = 0 := by
  rw [stepsIn, List.countP_eq_zero]
  intro i _
  rw [iterate_next_of_halted h, step_halted h]
  simp [Outcome.isStep]

theorem run_of_halted {m : Machine κ} (h : m.isHalted = true) (n : Nat) : m.run n = (m, 0) :=
  runFrom_halted h 0 n

/-- Only a reset ends a halt. -/
theorem isHalted_after {m : Machine κ} (h : m.isHalted = true) {call : Call} (hc : call ≠ .reset) :
    (m.after call).isHalted = true := by
  cases call with
  | step => rw [after, next_of_halted h]; exact h
  | run bound => rw [after, run_of_halted h]; exact h
  | load input =>
    rw [after]
    cases hl : m.load input with
    | error _ => exact h
    | ok m' =>
      obtain ⟨-, rfl⟩ := load_eq_ok_iff.1 hl
      exact h
  | reset => exact absurd rfl hc

theorem isHalted_afterAll {m : Machine κ} (h : m.isHalted = true) {calls : List Call}
    (hc : .reset ∉ calls) : (m.afterAll calls).isHalted = true := by
  induction calls generalizing m with
  | nil => exact h
  | cons call calls ih =>
    rw [List.mem_cons, not_or] at hc
    exact ih (isHalted_after h (Ne.symm hc.1)) hc.2

/-! ## What one step adds -/

/-- A call takes a step exactly if it leaves the machine running. -/
theorem isStep_step (m : Machine κ) : m.step.2.isStep = !m.next.isHalted := by
  unfold next
  refine m.step_cases ?_ ?_ ?_
  · intro hm
    simp [Outcome.isStep, hm]
  · intro reason instruction _ _
    simp [Outcome.isStep, stopWith, isHalted]
  · intro instruction write move next hm _
    simp [Outcome.isStep, goOn, isHalted, hm]

theorem stepCount_next (m : Machine κ) :
    m.next.stepCount = m.stepCount + if m.step.2.isStep then 1 else 0 := by
  unfold next
  refine m.step_cases ?_ ?_ ?_ <;> intros <;> rfl

theorem log_prefix_next (m : Machine κ) : m.log.toList <+: m.next.log.toList := by
  refine m.next_cases ?_ ?_ ?_
  · intro _
    exact List.prefix_rfl
  · intro reason instruction _ _
    simp [stopWith]
  · intro instruction write move next _ _
    simp [goOn]

/-! ## What successive steps add -/

theorem stepCount_iterate (n : Nat) (m : Machine κ) :
    (next^[n] m).stepCount = m.stepCount + m.stepsIn n := by
  induction n generalizing m with
  | zero => rfl
  | succ n ih => rw [Function.iterate_succ_apply, ih, stepCount_next, stepsIn_succ, Nat.add_assoc]

/-- Where the first call takes no step, none does. -/
theorem stepsIn_eq_zero {m : Machine κ} (h : m.step.2.isStep = false) (n : Nat) : m.stepsIn n = 0 := by
  cases n with
  | zero => rfl
  | succ n =>
    have hn : m.next.isHalted = true := by simpa [isStep_step] using h
    rw [stepsIn_succ, h, stepsIn_of_halted hn]
    rfl

theorem stepsIn_le (n : Nat) (m : Machine κ) : m.stepsIn n ≤ n := by
  have h := List.countP_le_length (l := List.range n) (p := fun i => (next^[i] m).step.2.isStep)
  rwa [List.length_range] at h

theorem stepsIn_lt_iff (n : Nat) {m : Machine κ} (h : m.isHalted = false) :
    m.stepsIn n < n ↔ (next^[n] m).isHalted = true := by
  induction n generalizing m with
  | zero => simp [stepsIn, h]
  | succ n ih =>
    rw [stepsIn_succ, Function.iterate_succ_apply]
    rw [isStep_step]
    cases hn : m.next.isHalted with
    | false =>
      rw [← ih hn]
      simp [Nat.add_comm 1]
    | true =>
      rw [stepsIn_of_halted hn, iterate_next_of_halted hn]
      simp [hn]

/-- A machine that runs still has taken a step in every call. -/
theorem stepsIn_of_running {n : Nat} {m : Machine κ} (h : (next^[n] m).halt = none) : m.stepsIn n = n := by
  have hfinal : (next^[n] m).isHalted = false := isHalted_eq_false_iff.2 h
  have hm : m.isHalted = false := by
    by_contra hm
    rw [Bool.not_eq_false] at hm
    rw [iterate_next_of_halted hm, hm] at hfinal
    cases hfinal
  refine Nat.le_antisymm (m.stepsIn_le n) (Nat.le_of_not_lt fun hlt => ?_)
  rw [(stepsIn_lt_iff n hm).1 hlt] at hfinal
  cases hfinal

theorem log_prefix_iterate (n : Nat) (m : Machine κ) : m.log.toList <+: (next^[n] m).log.toList := by
  induction n generalizing m with
  | zero => exact List.prefix_rfl
  | succ n ih => exact m.log_prefix_next.trans (ih m.next)

/-! ## Runs -/

theorem runFrom_eq (done n : Nat) (m : Machine κ) :
    m.runFrom done n = (next^[n] m, done + m.stepsIn n) := by
  induction n generalizing done m with
  | zero => rfl
  | succ n ih =>
    have hstep := m.isStep_step
    rw [runFrom, Function.iterate_succ_apply, stepsIn_succ, hstep]
    cases hs : m.step with
    | mk m' outcome =>
      have hn : m.next = m' := by rw [next, hs]
      rw [hs, hn] at hstep
      rw [hn]
      cases outcome with
      | went label =>
        have hm : m'.isHalted = false := by simpa [Outcome.isStep] using hstep
        simp [ih, hm, Nat.add_assoc]
      -- A stop ends the run at once; the calls that are left out would be idle.
      | stopped reason | idle =>
        have hm : m'.isHalted = true := by simpa [Outcome.isStep] using hstep
        simp [hm, iterate_next_of_halted hm, stepsIn_of_halted hm]

theorem run_eq (n : Nat) (m : Machine κ) : m.run n = (next^[n] m, m.stepsIn n) := by
  rw [run, runFrom_eq, Nat.zero_add]

theorem stepCount_run_le (n : Nat) (m : Machine κ) : (m.run n).1.stepCount ≤ m.stepCount + n := by
  rw [run_eq, stepCount_iterate]
  exact Nat.add_le_add_left (m.stepsIn_le n) _

/-- A stop that waits behind `n` steps ends every run that leaves room for it. -/
theorem run_of_stop {n bound : Nat} {m : Machine κ} {reason instruction} (hm : (next^[n] m).halt = none)
    (hstop : (next^[n] m).unit.order (next^[n] m).control (next^[n] m).tape.symbol = .stop reason instruction)
    (hbound : n < bound) : m.run bound = ((next^[n] m).stopWith reason instruction, n) := by
  obtain ⟨rest, rfl⟩ := Nat.exists_eq_add_of_lt hbound
  have hnone : (next^[n] m).step.2.isStep = false := by
    rw [step_of_stop hm hstop]
    rfl
  rw [run_eq, Nat.add_assoc, stepsIn_add, stepsIn_of_running hm, stepsIn_eq_zero hnone, Nat.add_comm n (rest + 1),
    Function.iterate_add_apply, Function.iterate_succ_apply, next_of_stop hm hstop]
  -- What follows the stop is idle.
  rw [iterate_next_of_halted rfl]
  rfl

/-- What successive steps keep between two machines, and what makes them step or stop together, holds between
them after runs of one bound; the runs then take equally many steps. -/
theorem run_together {κ' : Type} {Q : Machine κ → Machine κ' → Prop} (hnext : ∀ m m', Q m m' → Q m.next m'.next)
    (hstep : ∀ m m', Q m m' → m.step.2.isStep = m'.step.2.isStep) {m : Machine κ} {m' : Machine κ'} (h : Q m m')
    (n : Nat) : Q (m.run n).1 (m'.run n).1 ∧ (m.run n).2 = (m'.run n).2 := by
  rw [run_eq, run_eq]
  induction n generalizing m m' with
  | zero => exact ⟨h, rfl⟩
  | succ n ih =>
    obtain ⟨hq, hsteps⟩ := ih (hnext m m' h)
    refine ⟨hq, ?_⟩
    simp only [stepsIn_succ, hstep m m' h] at hsteps ⊢
    omega

/-- For every machine in whatever state. A run with bound `n` leaves it as `n` calls of `step` do and
reports how many of these took a step, which is at most `n` and is what the count has grown by; started
running, it falls short of the bound exactly if it ends in a halt. Two runs are one run with the sum of
the bounds, so that the log of a shorter run begins that of a longer one. After a halt, whatever is
called but a reset, steps are idle and runs report none, and both change nothing. -/
theorem run_is_bounded_stepping (m : Machine κ) :
    (∀ n, (m.run n).1 = next^[n] m ∧
      (m.run n).2 = (List.range n).countP (fun i => (next^[i] m).step.2.isStep) ∧
      (m.run n).2 ≤ n ∧ (m.run n).1.stepCount = m.stepCount + (m.run n).2 ∧
      (m.isHalted = false → ((m.run n).2 < n ↔ (m.run n).1.isHalted = true))) ∧
    (∀ a b, m.run (a + b) = (((m.run a).1.run b).1, (m.run a).2 + ((m.run a).1.run b).2)) ∧
    (∀ a b, a ≤ b → (m.run a).1.log.toList <+: (m.run b).1.log.toList) ∧
    (m.isHalted = true → ∀ calls, .reset ∉ calls →
      (m.afterAll calls).step = (m.afterAll calls, .idle) ∧
        ∀ n, (m.afterAll calls).run n = (m.afterAll calls, 0)) := by
  refine ⟨?stepping, ?sum, ?log, ?halted⟩
  case stepping =>
    intro n
    rw [run_eq]
    exact ⟨rfl, rfl, m.stepsIn_le n, m.stepCount_iterate n, m.stepsIn_lt_iff n⟩
  case sum =>
    intro a b
    rw [run_eq (a + b), run_eq a, run_eq b, stepsIn_add, Nat.add_comm a b, Function.iterate_add_apply]
  case log =>
    intro a b h
    obtain ⟨d, rfl⟩ := Nat.exists_eq_add_of_le h
    rw [run_eq a, run_eq (a + d), Nat.add_comm a d, Function.iterate_add_apply]
    exact (next^[a] m).log_prefix_iterate d
  case halted =>
    intro h calls hc
    have hm := isHalted_afterAll h hc
    exact ⟨step_halted hm, run_of_halted hm⟩

/-- A halt that would be the next step is left at the bound and taken by the run after it. -/
theorem run_is_bounded_stepping_pending_halt :
    let a := Post.Program.automaton ⟨[⟨1, "→ 2", .perform .right 2⟩, ⟨2, "!", .halt⟩]⟩
    ∃ m, a.start "1" = .ok m ∧ m.isHalted = false ∧ ((m.run 1).2 < 1 ↔ (m.run 1).1.isHalted = true) ∧
      (m.run 1).2 = 1 ∧ m.run 2 = (((m.run 1).1.run 1).1, 1) ∧ (m.run 2).1.isHalted = true :=
  ⟨_, rfl, rfl, ((run_is_bounded_stepping _).1 1).2.2.2.2 rfl, rfl,
    (run_is_bounded_stepping _).2.1 1 1, rfl⟩

end Machine

end TapeMachines
