import TapeMachines.Proofs.Calls
/-!
# Units that cannot be told apart

Two units are `Alike` if no observer tells them apart: they refuse the same inputs, and after any
calls their machines show the same. What a unit orders at a control point that control never comes to
is of no account. `Confined` says that control keeps to some control points whatever it reads, and
`alike_of_confined` that a unit may give other orders at all the rest.
-/

namespace TapeMachines

variable {κ : Type}

/-- All that an observer sees is the same: what the next step does, the status, the reason of the
halt and the log. -/
structure Machine.SameView (m m' : Machine κ) : Prop where
  outcome : m.step.2 = m'.step.2
  status : m.status = m'.status
  halt : m.halt = m'.halt
  log : m.log = m'.log

namespace Automaton

/-- Any input is refused by both for the same symbol, or starts machines of both that show the same
after the same calls. -/
def Alike (a b : Automaton κ) : Prop :=
  ∀ input, (∃ found, a.start input = .error found ∧ b.start input = .error found) ∨
    ∃ m m', a.start input = .ok m ∧ b.start input = .ok m' ∧
      ∀ calls, (m.afterAll calls).SameView (m'.afterAll calls)

/-- Control begins in `I`, and no order leads out of it. -/
structure Confined (a : Automaton κ) (I : κ → Prop) : Prop where
  initial : I a.initial
  next : ∀ {k k' read instruction write move}, I k →
    a.order k read = .go instruction write move k' → I k'

end Automaton

namespace Machine

variable {a : Automaton κ} {I : κ → Prop} {m : Machine κ}

/-! ## Control keeps to where it is confined -/

/-- `m` is a machine of the unit `a` with its control in `I`. -/
def Within (a : Automaton κ) (I : κ → Prop) (m : Machine κ) : Prop := m.unit = a ∧ I m.control

theorem within_on (ha : a.Confined I) (input : List Char) : (a.on input).Within a I := ⟨rfl, ha.initial⟩

theorem Within.next (ha : a.Confined I) (h : m.Within a I) : m.next.Within a I := by
  obtain ⟨rfl, hi⟩ := h
  refine m.next_cases (fun _ => ⟨rfl, hi⟩) (fun _ _ _ _ => ⟨rfl, hi⟩) ?_
  intro instruction write move next _ ho
  exact ⟨rfl, ha.next hi ho⟩

theorem Within.withTape (h : m.Within a I) (input : List Char) : (m.withTape input).Within a I := h

theorem Within.reset (ha : a.Confined I) (h : m.Within a I) : m.reset.Within a I := by
  obtain ⟨rfl, -⟩ := h
  exact ⟨rfl, ha.initial⟩

theorem Within.after (ha : a.Confined I) (h : m.Within a I) (call : Call) : (m.after call).Within a I :=
  inv_after (I := Within a I) (fun _ h => h.next ha) (fun _ input h _ => h.withTape input)
    (fun _ h => h.reset ha) h call

theorem Within.afterAll (ha : a.Confined I) (h : m.Within a I) (calls : List Call) :
    (m.afterAll calls).Within a I := by
  induction calls generalizing m with
  | nil => exact h
  | cons call calls ih => exact ih (h.after ha call)

/-- Where a machine is confined its control is, on any input and after any calls. -/
theorem confined_afterAll (ha : a.Confined I) (input : List Char) (calls : List Call) :
    I ((a.on input).afterAll calls).control :=
  ((within_on ha input).afterAll ha calls).2

/-! ## Other orders elsewhere -/

/-- The machine under a unit that differs from its own in the orders. -/
def withOrder (m : Machine κ) (order : κ → Char → Order κ) : Machine κ :=
  { m with unit := { m.unit with order := order } }

theorem step_withOrder {order : κ → Char → Order κ} (h : order m.control = m.unit.order m.control) :
    (m.withOrder order).step = (m.next.withOrder order, m.step.2) := by
  by_cases hm : m.isHalted = true
  · have hm' : (m.withOrder order).isHalted = true := hm
    rw [next_of_halted hm, step_halted hm, step_halted hm']
  · have hn : m.halt = none := isHalted_eq_false_iff.1 (by simpa using hm)
    have hn' : (m.withOrder order).halt = none := hn
    have ho : (m.withOrder order).unit.order (m.withOrder order).control (m.withOrder order).tape.symbol =
        m.unit.order m.control m.tape.symbol := congrFun h m.tape.symbol
    cases hm : m.unit.order m.control m.tape.symbol with
    | stop reason instruction =>
      rw [next_of_stop hn hm, step_of_stop hn hm, step_of_stop hn' (ho.trans hm)]
      rfl
    | go instruction write move next =>
      rw [next_of_go hn hm, step_of_go hn hm, step_of_go hn' (ho.trans hm)]
      rfl

variable {order : κ → Char → Order κ} (ha : a.Confined I) (ho : ∀ k, I k → order k = a.order k)
include ha ho

theorem Within.step_withOrder (h : m.Within a I) :
    (m.withOrder order).step = (m.next.withOrder order, m.step.2) := by
  obtain ⟨rfl, hi⟩ := h
  exact Machine.step_withOrder (ho _ hi)

theorem Within.runFrom_withOrder (h : m.Within a I) (done n : Nat) :
    (m.withOrder order).runFrom done n = ((m.runFrom done n).1.withOrder order, (m.runFrom done n).2) := by
  induction n generalizing done m with
  | zero => rfl
  | succ n ih =>
    -- The run goes on from `m.next`, whose control is still where the orders agree.
    have hn : m.step.1.Within a I := h.next ha
    rw [runFrom, runFrom, h.step_withOrder ha ho, Machine.next]
    cases hs : m.step with
    | mk m' outcome =>
      rw [hs] at hn
      cases outcome with
      | went label => exact ih hn (done + 1)
      | stopped reason => rfl
      | idle => rfl

theorem Within.after_withOrder (h : m.Within a I) (call : Call) :
    (m.withOrder order).after call = (m.after call).withOrder order := by
  cases call with
  | step => exact congrArg Prod.fst (h.step_withOrder ha ho)
  | run bound => exact congrArg Prod.fst (h.runFrom_withOrder ha ho 0 bound)
  | load input =>
    have hf : (m.withOrder order).unit.foreign? input.toList = m.unit.foreign? input.toList := rfl
    simp only [Machine.after, load, hf]
    cases m.unit.foreign? input.toList <;> rfl
  | reset => rfl

theorem Within.afterAll_withOrder (h : m.Within a I) (calls : List Call) :
    (m.withOrder order).afterAll calls = (m.afterAll calls).withOrder order := by
  induction calls generalizing m with
  | nil => rfl
  | cons call calls ih =>
    show ((m.withOrder order).after call).afterAll calls = ((m.after call).afterAll calls).withOrder order
    rw [h.after_withOrder ha ho call]
    exact ih (h.after ha call)

end Machine

/-! ## Main statement -/

/-- Orders at control points that control never comes to may be exchanged. -/
theorem Automaton.alike_of_confined {a : Automaton κ} {I : κ → Prop} (ha : a.Confined I)
    {order : κ → Char → Order κ} (ho : ∀ k, I k → order k = a.order k) :
    a.Alike { a with order := order } := by
  intro input
  have hf : foreign? { a with order := order } input.toList = a.foreign? input.toList := rfl
  cases hi : a.foreign? input.toList with
  | some found =>
    left
    exact ⟨found, by simp [start, hi], by simp [start, hf, hi]⟩
  | none =>
    right
    refine ⟨a.on input.toList, on { a with order := order } input.toList, by simp [start, hi],
      by simp [start, hf, hi], ?_⟩
    intro calls
    have hstart := Machine.within_on ha input.toList
    have hnow := hstart.afterAll ha calls
    have hcalls : (on { a with order := order } input.toList).afterAll calls =
        ((a.on input.toList).afterAll calls).withOrder order := hstart.afterAll_withOrder ha ho calls
    rw [hcalls]
    exact ⟨by rw [hnow.step_withOrder ha ho], rfl, rfl, rfl⟩

theorem Automaton.Alike.refl (a : Automaton κ) : a.Alike a := by
  have ha : a.Confined fun _ => True := ⟨trivial, fun _ _ => trivial⟩
  exact alike_of_confined ha fun _ _ => rfl

end TapeMachines
