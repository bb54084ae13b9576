import TapeMachines.Proofs.Runs
import TapeMachines.Proofs.Tape.Facing
/-!
# Sweeps over a tape

A program that goes over its tape from end to end is followed part by part. `Automaton.Leads` says where some
steps lead from a control point and a tape; such parts are joined by `trans`, and a control point that goes over
a whole list of cells in one direction is one part, by induction on the list (`leads_right_by`, with any number of
steps for each cell, and `leads_left`). `run_on_of_leads` turns steps that end before a stop into a run with any
bound that leaves room for the stop.
-/

namespace TapeMachines

/-! ## Steps of a control unit -/

/-- `n` steps of `a` lead from one control point and tape to another. -/
inductive Automaton.Leads {κ : Type} (a : Automaton κ) : Nat → κ × Tape → κ × Tape → Prop
  | done (c : κ × Tape) : a.Leads 0 c c
  | step {k next : κ} {t : Tape} {instruction : String} {write : Option Char} {move : Direction} {n : Nat}
      {c : κ × Tape} (h : a.order k t.symbol = .go instruction write move next)
      (rest : a.Leads n (next, t.perform write move) c) : a.Leads (n + 1) (k, t) c

namespace Automaton

variable {κ : Type} {a : Automaton κ}

theorem Leads.trans {n n' : Nat} {c c' c'' : κ × Tape} (h : a.Leads n c c') (h' : a.Leads n' c' c'') :
    a.Leads (n + n') c c'' := by
  induction h with
  | done c => rwa [Nat.zero_add]
  | step ho _ ih =>
    rw [Nat.succ_add]
    exact .step ho (ih h')

/-! ### Sweeps -/

section Sweep

variable {k : κ} {f : Char → Char} {cells : List Char} {blank : Char}

/-- Over some cells to the right, where `n` steps lead over each of them and leave `f c` in place of the symbol
`c`. -/
theorem leads_right_by {n : Nat}
    (h : ∀ c ∈ cells, ∀ left right head, a.Leads n (k, .facingRight blank left (c :: right) head)
      (k, .facingRight blank (f c :: left) right (head + 1)))
    (left right : List Char) (head : Int) :
    a.Leads (cells.length * n) (k, .facingRight blank left (cells ++ right) head)
      (k, .facingRight blank ((cells.map f).reverse ++ left) right (head + cells.length)) := by
  induction cells generalizing left head with
  | nil =>
    rw [List.length_nil, Nat.zero_mul, Int.natCast_zero, Int.add_zero]
    exact .done _
  | cons c cells ih =>
    have hfirst := h c List.mem_cons_self left (cells ++ right) head
    have hrest := ih (fun x hx => h x (List.mem_cons_of_mem c hx)) (f c :: left) (head + 1)
    rw [List.map_cons, List.reverse_cons, List.append_assoc, List.length_cons, Int.natCast_succ, Nat.succ_mul,
      Nat.add_comm _ n, show head + ((cells.length : Int) + 1) = head + 1 + cells.length by omega]
    exact hfirst.trans hrest

/-- Over a row of equal cells, left as they are. -/
theorem leads_right_row {n : Nat} {c : Char}
    (h : ∀ left right head, a.Leads n (k, .facingRight blank left (c :: right) head)
      (k, .facingRight blank (c :: left) right (head + 1)))
    (count : Nat) (left right : List Char) (head : Int) :
    a.Leads (count * n) (k, .facingRight blank left (List.replicate count c ++ right) head)
      (k, .facingRight blank (List.replicate count c ++ left) right (head + count)) := by
  have hcells : ∀ x ∈ List.replicate count c, ∀ left right head,
      a.Leads n (k, .facingRight blank left (x :: right) head)
        (k, .facingRight blank (id x :: left) right (head + 1)) := by
    intro x hx
    rw [List.eq_of_mem_replicate hx]
    exact h
  have hrow := leads_right_by hcells left right head
  rwa [List.map_id, List.reverse_replicate, List.length_replicate] at hrow

/-- A control point that goes right over some cells, writing `f c` in place of each symbol `c`. -/
theorem leads_right (h : ∀ c ∈ cells, ∃ i, a.order k c = .go i (some (f c)) .right k) (blank : Char)
    (left right : List Char) (head : Int) :
    a.Leads cells.length (k, .facingRight blank left (cells ++ right) head)
      (k, .facingRight blank ((cells.map f).reverse ++ left) right (head + cells.length)) := by
  have hcells : ∀ c ∈ cells, ∀ left right head, a.Leads 1 (k, .facingRight blank left (c :: right) head)
      (k, .facingRight blank (f c :: left) right (head + 1)) := by
    intro c hc left right head
    obtain ⟨i, ho⟩ := h c hc
    exact .step ho (.done _)
  have hsweep := leads_right_by hcells left right head
  rwa [Nat.mul_one] at hsweep

/-- One control point looks at a cell and another goes on to the right. -/
theorem leads_look_right {k' : κ} {c : Char} (hlook : ∃ i, a.order k c = .go i none .stay k')
    (hright : ∃ i, a.order k' c = .go i none .right k) (blank : Char) (left right : List Char) (head : Int) :
    a.Leads 2 (k, .facingRight blank left (c :: right) head) (k, .facingRight blank (c :: left) right (head + 1)) := by
  obtain ⟨i, hlook⟩ := hlook
  obtain ⟨j, hright⟩ := hright
  exact .step hlook (.step hright (.done _))

/-- A control point that goes left over some cells, nearest first. -/
theorem leads_left (h : ∀ c ∈ cells, ∃ i, a.order k c = .go i (some (f c)) .left k) (blank : Char)
    (left right : List Char) (head : Int) :
    a.Leads cells.length (k, .facingLeft blank (cells ++ left) right head)
      (k, .facingLeft blank left ((cells.map f).reverse ++ right) (head - cells.length)) := by
  induction cells generalizing right head with
  | nil =>
    rw [List.length_nil, Int.natCast_zero, Int.sub_zero]
    exact .done _
  | cons c cells ih =>
    obtain ⟨i, ho⟩ := h c List.mem_cons_self
    have hrest := ih (fun x hx => h x (List.mem_cons_of_mem c hx)) (f c :: right) (head - 1)
    refine .step ho ?_
    rw [Tape.perform_facingLeft, List.map_cons, List.reverse_cons, List.append_assoc, List.length_cons, Int.natCast_succ,
      show head - ((cells.length : Int) + 1) = head - 1 - cells.length by omega]
    exact hrest

/-- Over the whole input, and one step back from the blank behind it. -/
theorem leads_there {k' : κ} {input : List Char} (hover : ∀ c ∈ input, ∃ i, a.order k c = .go i (some (f c)) .right k)
    (hturn : ∃ i, a.order k blank = .go i (some blank) .left k') :
    a.Leads (input.length + 1) (k, Tape.ofList blank input)
      (k', .facingLeft blank (input.map f).reverse [blank] (input.length - 1)) := by
  have hsweep := leads_right hover blank [] [] 0
  rw [List.append_nil, List.append_nil, Int.zero_add] at hsweep
  have hback : a.Leads 1 (k, .facingRight blank (input.map f).reverse [] input.length)
      (k', .facingLeft blank (input.map f).reverse [blank] (input.length - 1)) := by
    obtain ⟨i, ho⟩ := hturn
    exact .step ho (.done _)
  rw [Tape.ofList_eq_facingRight]
  exact hsweep.trans hback

end Sweep

/-! ### Runs -/

theorem Leads.iterate {n : Nat} {m : Machine κ} {c : κ × Tape} (hu : m.unit = a) (hm : m.halt = none)
    (h : a.Leads n (m.control, m.tape) c) :
    ∃ m', Machine.next^[n] m = m' ∧ m'.unit = a ∧ m'.halt = none ∧ (m'.control, m'.tape) = c := by
  generalize hc : (m.control, m.tape) = c₀ at h
  induction h generalizing m with
  | done c => exact ⟨m, rfl, hu, hm, hc⟩
  | step ho _ ih =>
    simp only [Prod.mk.injEq] at hc
    obtain ⟨rfl, rfl⟩ := hc
    rw [← hu] at ho
    rw [Function.iterate_succ_apply, Machine.next_of_go hm ho]
    exact ih hu hm rfl

end Automaton

/-- `a` has stopped after `steps` steps, for `reason`, at the control point `k` and with the tape `t`. -/
structure Machine.StoppedAt {κ : Type} (m : Machine κ) (a : Automaton κ) (steps : Nat) (reason : Halt) (k : κ)
    (t : Tape) : Prop where
  unit : m.unit = a
  stepCount : m.stepCount = steps
  halt : m.halt = some reason
  control : m.control = k
  tape : m.tape = t

theorem Machine.StoppedAt.status {κ : Type} {m : Machine κ} {a : Automaton κ} {steps : Nat} {reason : Halt} {k : κ}
    {t : Tape} (h : m.StoppedAt a steps reason k t) :
    m.status = ⟨a.label k, t.head, t.symbol, true, steps, String.ofList (a.shows t).1, (a.shows t).2⟩ := by
  obtain ⟨rfl, rfl, hhalt, rfl, rfl⟩ := h
  rw [Machine.status, Machine.isHalted, hhalt]
  rfl

/-- A run took `n` steps and came to a stop for `reason` at a control point labelled `label`. -/
structure Ended {κ : Type} (run : Machine κ × Nat) (n : Nat) (reason : Halt) (label : String) : Prop where
  steps : run.2 = n
  stepCount : run.1.status.stepCount = n
  halt : run.1.halt = some reason
  control : run.1.status.control = label

theorem Machine.StoppedAt.ended {κ : Type} {run : Machine κ × Nat} {a : Automaton κ} {steps : Nat} {reason : Halt}
    {k : κ} {t : Tape} (h : run.1.StoppedAt a steps reason k t) (hsteps : run.2 = steps) :
    Ended run steps reason (a.label k) :=
  ⟨hsteps, h.stepCount, h.halt, congrArg Status.control h.status⟩

/-- Where steps lead to a stop, a run that leaves room for the stop takes these steps and ends there. -/
theorem Automaton.run_on_of_leads {κ : Type} {a : Automaton κ} {input : List Char} {n bound : Nat} {k : κ} {t : Tape}
    {reason : Halt} {instruction : String} (h : a.Leads n (a.initial, Tape.ofList a.blank input) (k, t))
    (hstop : a.order k t.symbol = .stop reason instruction) (hbound : n < bound) :
    ((a.on input).run bound).2 = n ∧ ((a.on input).run bound).1.StoppedAt a n reason k t := by
  obtain ⟨m, hreached, hu, hm, hc⟩ := h.iterate (m := a.on input) rfl rfl
  simp only [Prod.mk.injEq] at hc
  obtain ⟨rfl, rfl⟩ := hc
  have hcount : m.stepCount = n := by
    rw [← hreached, Machine.stepCount_iterate, Machine.stepsIn_of_running (hreached ▸ hm)]
    exact Nat.zero_add n
  have hstop' : m.unit.order m.control m.tape.symbol = .stop reason instruction := by rwa [hu]
  rw [Machine.run_of_stop (m := a.on input) (hreached ▸ hm) (hreached ▸ hstop') hbound, hreached]
  exact ⟨rfl, hu, hcount, rfl, rfl, rfl⟩

end TapeMachines
