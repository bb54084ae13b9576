import Mathlib.Logic.Function.Iterate
import TapeMachines.Machine
/-!
# Calls on a machine

A caller steps a machine, runs it, gives it a tape or resets it, in any order. `Machine.step_cases`
is all that one step can do, in three cases; later proofs split on these and leave `step` closed.
`Machine.inv_afterAll` is the one induction over calls: what a step, a new tape and a reset keep,
every sequence of calls keeps.
-/

namespace TapeMachines

namespace Automaton

variable {κ : Type} {a : Automaton κ}

theorem foreign?_eq_none_iff {input : List Char} :
    a.foreign? input = none ↔ ∀ c ∈ input, a.admits c = true := by
  simp only [foreign?, Option.map_eq_none_iff, List.find?_eq_none, Prod.forall]
  constructor
  · intro h c hc
    obtain ⟨i, hi⟩ := List.getElem?_of_mem hc
    simpa using h c i (List.mem_zipIdx_iff_getElem?.2 hi)
  · intro h c i hci
    simpa using h c (List.mem_of_getElem? (List.mem_zipIdx_iff_getElem?.1 hci))

theorem start_eq_ok_iff {input : String} {m : Machine κ} :
    a.start input = .ok m ↔ (∀ c ∈ input.toList, a.admits c = true) ∧ m = a.on input.toList := by
  rw [← foreign?_eq_none_iff, start]
  split
  · rename_i h; simp [h]
  · rename_i h; simp [h, eq_comm]

/-- The automaton at its start on a tape of any shape. -/
def onTape (a : Automaton κ) (t : Tape) (input : List Char) : Machine κ := { a.on input with tape := t }

end Automaton

namespace Machine

variable {κ : Type}

/-! ## One step -/

/-- `m` stopped by an order. -/
def stopWith (m : Machine κ) (reason : Halt) (instruction : String) : Machine κ :=
  { m with halt := some reason
           log := m.log.push (m.entry instruction m.control m.tape (some reason)) }

/-- `m` one step on, as ordered. -/
def goOn (m : Machine κ) (instruction : String) (write : Option Char) (move : Direction) (next : κ) :
    Machine κ :=
  { m with control := next
           tape := m.tape.perform write move
           stepCount := m.stepCount + 1
           log := m.log.push (m.entry instruction next (m.tape.perform write move) none) }

theorem isHalted_eq_false_iff {m : Machine κ} : m.isHalted = false ↔ m.halt = none := by
  simp [isHalted]

/-- What one call of `step` can do. -/
@[elab_as_elim]
theorem step_cases (m : Machine κ) {motive : Machine κ × Outcome → Prop}
    (idle : m.isHalted = true → motive (m, .idle))
    (stop : ∀ reason instruction, m.halt = none →
      m.unit.order m.control m.tape.symbol = .stop reason instruction →
      motive (m.stopWith reason instruction, .stopped reason))
    (go : ∀ instruction write move next, m.halt = none →
      m.unit.order m.control m.tape.symbol = .go instruction write move next →
      motive (m.goOn instruction write move next, .went (m.unit.label next))) : motive m.step := by
  unfold step
  split
  · exact idle ‹_›
  · have h : m.halt = none := isHalted_eq_false_iff.1 (by simpa using ‹¬m.isHalted = true›)
    split
    · exact stop _ _ h ‹_›
    · exact go _ _ _ _ h ‹_›

theorem step_of_stop {m : Machine κ} {reason instruction} (h : m.halt = none)
    (ho : m.unit.order m.control m.tape.symbol = .stop reason instruction) :
    m.step = (m.stopWith reason instruction, .stopped reason) := by
  simp [step, isHalted, h, ho, stopWith]

theorem step_of_go {m : Machine κ} {instruction write move next} (h : m.halt = none)
    (ho : m.unit.order m.control m.tape.symbol = .go instruction write move next) :
    m.step = (m.goOn instruction write move next, .went (m.unit.label next)) := by
  simp [step, isHalted, h, ho, goOn]

/-- `m` after one call of `step`. -/
def next (m : Machine κ) : Machine κ := m.step.1

@[elab_as_elim]
theorem next_cases (m : Machine κ) {motive : Machine κ → Prop} (idle : m.isHalted = true → motive m)
    (stop : ∀ reason instruction, m.halt = none →
      m.unit.order m.control m.tape.symbol = .stop reason instruction →
      motive (m.stopWith reason instruction))
    (go : ∀ instruction write move next, m.halt = none →
      m.unit.order m.control m.tape.symbol = .go instruction write move next →
      motive (m.goOn instruction write move next)) : motive m.next :=
  m.step_cases (motive := fun result => motive result.1) idle stop go

theorem next_of_halted {m : Machine κ} (h : m.isHalted = true) : m.next = m := by
  rw [next, step_halted h]

theorem next_of_stop {m : Machine κ} {reason instruction} (h : m.halt = none)
    (ho : m.unit.order m.control m.tape.symbol = .stop reason instruction) :
    m.next = m.stopWith reason instruction := by
  rw [next, step_of_stop h ho]

theorem next_of_go {m : Machine κ} {instruction write move next} (h : m.halt = none)
    (ho : m.unit.order m.control m.tape.symbol = .go instruction write move next) :
    m.next = m.goOn instruction write move next := by
  rw [Machine.next, step_of_go h ho]

@[simp] theorem unit_next (m : Machine κ) : m.next.unit = m.unit := by
  refine m.next_cases ?_ ?_ ?_ <;> intros <;> rfl

/-! ## A new tape, a new start -/

/-- `m` on a tape seeded from an input. -/
def withTape (m : Machine κ) (input : List Char) : Machine κ :=
  { m with tape := Tape.ofList m.unit.blank input, input := input }

theorem load_eq_ok_iff {m m' : Machine κ} {input : String} :
    m.load input = .ok m' ↔
      (∀ c ∈ input.toList, m.unit.admits c = true) ∧ m' = m.withTape input.toList := by
  rw [← Automaton.foreign?_eq_none_iff, load]
  split
  · rename_i h; simp [h]
  · rename_i h; simp [h, withTape, eq_comm]

theorem reset_eq_onTape {a : Automaton κ} {m : Machine κ} (hu : m.unit = a) :
    m.reset = a.onTape (a.restart m.tape m.input) m.input := by
  subst hu
  rfl

end Machine

/-! ## Calls -/

inductive Call where
  | step
  | run (bound : Nat)
  | load (input : String)
  | reset
  deriving DecidableEq, Repr

namespace Machine

variable {κ : Type}

/-- `m` after a call. A tape that is refused leaves it as it was. -/
def after (m : Machine κ) : Call → Machine κ
  | .step => m.next
  | .run bound => (m.run bound).1
  | .load input => (m.load input).toOption.getD m
  | .reset => m.reset

/-- `m` after some calls, one after the other. -/
def afterAll (m : Machine κ) (calls : List Call) : Machine κ := calls.foldl after m

theorem inv_runFrom {I : Machine κ → Prop} (hs : ∀ m, I m → I m.next) (done n : Nat) (m : Machine κ)
    (h : I m) : I (m.runFrom done n).1 := by
  induction n generalizing done m with
  | zero => exact h
  | succ n ih =>
    have hn : I m.step.1 := hs m h
    rw [runFrom]
    split
    · rename_i m' _ he; rw [he] at hn; exact ih _ m' hn
    · rename_i m' _ _ he; rw [he] at hn; exact hn

/-- Only a tape over the machine's symbols is loaded. -/
theorem inv_after {I : Machine κ → Prop} (hs : ∀ m, I m → I m.next)
    (hl : ∀ m input, I m → (∀ c ∈ input, m.unit.admits c = true) → I (m.withTape input))
    (hr : ∀ m, I m → I m.reset) {m : Machine κ} (h : I m) (call : Call) : I (m.after call) := by
  cases call with
  | step => exact hs m h
  | run bound => exact inv_runFrom hs 0 bound m h
  | load input =>
    show I ((m.load input).toOption.getD m)
    cases he : m.load input with
    | error _ => exact h
    | ok m' =>
      obtain ⟨hi, rfl⟩ := load_eq_ok_iff.1 he
      exact hl m _ h hi
  | reset => exact hr m h

/-- What steps, new tapes and resets keep holds after any calls. -/
theorem inv_afterAll {I : Machine κ → Prop} (hs : ∀ m, I m → I m.next)
    (hl : ∀ m input, I m → (∀ c ∈ input, m.unit.admits c = true) → I (m.withTape input))
    (hr : ∀ m, I m → I m.reset) {m : Machine κ} (h : I m) (calls : List Call) :
    I (m.afterAll calls) := by
  induction calls generalizing m with
  | nil => exact h
  | cons call calls ih => exact ih (inv_after hs hl hr h call)

@[simp] theorem unit_afterAll (m : Machine κ) (calls : List Call) : (m.afterAll calls).unit = m.unit := by
  apply inv_afterAll (I := fun m' => m'.unit = m.unit)
  · intro m' h
    exact m'.unit_next.trans h
  · intro m' input h _
    exact h
  · intro m' h
    exact h
  · rfl

@[simp] theorem unit_after (m : Machine κ) (call : Call) : (m.after call).unit = m.unit :=
  m.unit_afterAll [call]

/-- Steps and runs leave the input that a reset may bring back. -/
theorem input_next (m : Machine κ) : m.next.input = m.input := by
  refine m.next_cases ?_ ?_ ?_ <;> intros <;> rfl

theorem input_run (m : Machine κ) (bound : Nat) : (m.run bound).1.input = m.input := by
  apply inv_runFrom (I := fun m' => m'.input = m.input)
  · intro m' h
    exact m'.input_next.trans h
  · rfl

theorem afterAll_append (m : Machine κ) (calls more : List Call) :
    m.afterAll (calls ++ more) = (m.afterAll calls).afterAll more := by
  simp [afterAll]

end Machine

/-! ## Replies -/

/-- What a call gives back. -/
inductive Reply where
  | outcome (o : Outcome)
  | steps (taken : Nat)
  | loaded (refused : Option ForeignSymbol)
  | done
  deriving DecidableEq, Repr

namespace Machine

variable {κ : Type}

def reply (m : Machine κ) : Call → Reply
  | .step => .outcome m.step.2
  | .run bound => .steps (m.run bound).2
  | .load input => .loaded (m.unit.foreign? input.toList)
  | .reset => .done

/-- What some calls give back, one after the other. -/
def replies (m : Machine κ) : List Call → List Reply
  | [] => []
  | call :: calls => m.reply call :: (m.after call).replies calls

theorem replies_append (m : Machine κ) (calls more : List Call) :
    m.replies (calls ++ more) = m.replies calls ++ (m.afterAll calls).replies more := by
  induction calls generalizing m with
  | nil => rfl
  | cons call calls ih => exact congrArg (m.reply call :: ·) (ih (m.after call))

end Machine

/-! ## Machines that calls lead to -/

/-- `m` is what some calls made of a machine that `a` started on some input. -/
def Automaton.Reaches {κ : Type} (a : Automaton κ) (m : Machine κ) : Prop :=
  ∃ input m₀ calls, a.start input = .ok m₀ ∧ m₀.afterAll calls = m

namespace Automaton.Reaches

variable {κ : Type} {a : Automaton κ} {m : Machine κ}

theorem after (h : a.Reaches m) (call : Call) : a.Reaches (m.after call) := by
  obtain ⟨input, m₀, calls, hm₀, rfl⟩ := h
  refine ⟨input, m₀, calls ++ [call], hm₀, ?_⟩
  rw [Machine.afterAll_append]
  rfl

theorem next (h : a.Reaches m) : a.Reaches m.next := h.after .step

theorem unit (h : a.Reaches m) : m.unit = a := by
  obtain ⟨input, m₀, calls, hm₀, rfl⟩ := h
  obtain ⟨-, rfl⟩ := Automaton.start_eq_ok_iff.1 hm₀
  exact Machine.unit_afterAll _ calls

theorem withTape (h : a.Reaches m) {input : List Char} (hi : ∀ c ∈ input, a.admits c = true) :
    a.Reaches (m.withTape input) := by
  have hload : m.load (String.ofList input) = .ok (m.withTape input) := by
    rw [Machine.load_eq_ok_iff, h.unit, String.toList_ofList]
    exact ⟨hi, rfl⟩
  have hafter := h.after (.load (String.ofList input))
  rwa [Machine.after, hload] at hafter

/-- What every start establishes and steps, new tapes and resets keep holds of every machine that calls
lead to. -/
theorem inv {I : Machine κ → Prop} (h₀ : ∀ input, (∀ c ∈ input, a.admits c = true) → I (a.on input))
    (hs : ∀ m, a.Reaches m → I m → I m.next)
    (hl : ∀ m input, a.Reaches m → (∀ c ∈ input, a.admits c = true) → I m → I (m.withTape input))
    (hr : ∀ m, a.Reaches m → I m → I m.reset) (h : a.Reaches m) : I m := by
  obtain ⟨input, m₀, calls, hm₀, rfl⟩ := h
  obtain ⟨hi, rfl⟩ := Automaton.start_eq_ok_iff.1 hm₀
  refine (Machine.inv_afterAll (I := fun m => a.Reaches m ∧ I m) ?_ ?_ ?_ ⟨⟨input, _, [], hm₀, rfl⟩, h₀ _ hi⟩ calls).2
  · rintro m ⟨hm, hI⟩
    exact ⟨hm.next, hs m hm hI⟩
  · rintro m input ⟨hm, hI⟩ hi
    rw [hm.unit] at hi
    exact ⟨hm.withTape hi, hl m input hm hi hI⟩
  · rintro m ⟨hm, hI⟩
    exact ⟨hm.after .reset, hr m hm hI⟩

end Automaton.Reaches

end TapeMachines
