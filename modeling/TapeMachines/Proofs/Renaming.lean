import TapeMachines.Proofs.Exchange
import TapeMachines.Proofs.Runs
import TapeMachines.Proofs.Snapshots
import TapeMachines.Proofs.Tape.Map
/-!
# Machines under other names

A `Renaming` gives other names to control points and other symbols to the tape. One unit `Renames` to another
if both begin, read, order and show the same but for the names. Their machines are then in lockstep: one step
keeps `InLockstep` in each of its three cases, and so do runs, new tapes and resets, so that after any calls
one machine is the other under other names (`Automaton.Renames.renamed_afterAll`).
-/

namespace TapeMachines

structure Renaming (κ : Type) where
  control : κ → κ
  symbol : Char → Char
  /-- Which instruction may be logged in the place of which. -/
  instruction : String → String → Prop

variable {κ : Type}

/-! ## What an observer sees -/

/-- Two texts that show a control point and the one it is renamed to. -/
def Renaming.Labels (r : Renaming κ) (label : κ → String) (s s' : String) : Prop :=
  ∃ k, s = label k ∧ s' = label (r.control k)

/-- The snapshot with other symbols. -/
def Snapshot.map (f : Char → Char) (v : Snapshot) : Snapshot := ⟨v.head, f v.symbol, v.tape.map f, v.origin⟩

structure LogEntry.Renamed (r : Renaming κ) (label : κ → String) (e e' : LogEntry) : Prop where
  step : e'.step = e.step
  before : r.Labels label e.before e'.before
  read : e'.read = r.symbol e.read
  instruction : r.instruction e.instruction e'.instruction
  after : r.Labels label e.after e'.after
  snapshot : e'.snapshot = e.snapshot.map r.symbol
  halt : e'.halt = e.halt

structure Status.Renamed (r : Renaming κ) (label : κ → String) (s s' : Status) : Prop where
  control : r.Labels label s.control s'.control
  halted : s'.halted = s.halted
  stepCount : s'.stepCount = s.stepCount
  snapshot : s'.snapshot = s.snapshot.map r.symbol

/-- The second machine is where the first is, and has logged what the first has, but for the names. -/
structure Machine.Renamed (r : Renaming κ) (m m' : Machine κ) : Prop where
  control : m'.control = r.control m.control
  tape : m'.tape = m.tape.map r.symbol
  halt : m'.halt = m.halt
  stepCount : m'.stepCount = m.stepCount
  status : m.status.Renamed r m.unit.label m'.status
  log : List.Forall₂ (LogEntry.Renamed r m.unit.label) m.log.toList m'.log.toList

/-! ## Units under other names -/

inductive Order.Renamed (r : Renaming κ) : Order κ → Order κ → Prop
  | stop {reason instruction instruction'} (h : r.instruction instruction instruction') :
    Renamed r (.stop reason instruction) (.stop reason instruction')
  | go {instruction instruction' write move next} (h : r.instruction instruction instruction') :
    Renamed r (.go instruction write move next) (.go instruction' (write.map r.symbol) move (r.control next))

/-- `b` is `a` under other names, as far as control goes, which keeps to `I`. -/
structure Automaton.Renames (r : Renaming κ) (I : κ → Prop) (a b : Automaton κ) : Prop where
  confined : a.Confined I
  blank : b.blank = r.symbol a.blank
  initial : b.initial = r.control a.initial
  label : b.label = a.label
  order : ∀ k c, I k → (a.order k c).Renamed r (b.order (r.control k) (r.symbol c))
  admits : ∀ c, b.admits (r.symbol c) = a.admits c
  shows : ∀ t, b.shows (t.map r.symbol) = ((a.shows t).1.map r.symbol, (a.shows t).2)
  restart : ∀ t input, b.restart (t.map r.symbol) (input.map r.symbol) = (a.restart t input).map r.symbol

namespace Automaton.Renames

variable {r : Renaming κ} {I : κ → Prop} {a b : Automaton κ}

theorem snapshot (h : a.Renames r I b) (t : Tape) :
    b.snapshot (t.map r.symbol) = (a.snapshot t).map r.symbol := by
  simp only [Automaton.snapshot, Snapshot.map, Tape.head_map, Tape.symbol_map, h.shows, Snapshot.mk.injEq, true_and,
    and_true]
  rw [← String.toList_inj, String.toList_map, String.toList_ofList, String.toList_ofList]

/-- Both refuse an input at the same place. -/
theorem foreign? (h : a.Renames r I b) (input : List Char) :
    b.foreign? (input.map r.symbol) =
      (a.foreign? input).map fun found => ⟨r.symbol found.symbol, found.position⟩ := by
  simp only [Automaton.foreign?, List.zipIdx_map, List.find?_map, Option.map_map, Function.comp_def, Prod.map, h.admits,
    id_eq]

end Automaton.Renames

/-- The call with other symbols. -/
def Call.map (f : Char → Char) : Call → Call
  | .step => .step
  | .run bound => .run bound
  | .load input => .load (input.map f)
  | .reset => .reset

theorem Call.map_id (call : Call) : call.map id = call := by
  cases call with
  | load input => rw [Call.map, String.map_id]
  | step | run | reset => rfl

/-! ## Lockstep -/

namespace Machine

/-- A machine of `a` and one of `b`, where the same calls have led them. -/
structure InLockstep (r : Renaming κ) (I : κ → Prop) (a b : Automaton κ) (m m' : Machine κ) : Prop where
  within : m.Within a I
  unit' : m'.unit = b
  control : m'.control = r.control m.control
  tape : m'.tape = m.tape.map r.symbol
  input : m'.input = m.input.map r.symbol
  halt : m'.halt = m.halt
  stepCount : m'.stepCount = m.stepCount
  log : List.Forall₂ (LogEntry.Renamed r a.label) m.log.toList m'.log.toList

variable {r : Renaming κ} {I : κ → Prop} {a b : Automaton κ} {m m' : Machine κ}

theorem inLockstep_on (hab : a.Renames r I b) (input : List Char) :
    InLockstep r I a b (a.on input) (b.on (input.map r.symbol)) where
  within := within_on hab.confined input
  unit' := rfl
  control := hab.initial
  tape := by
    show Tape.ofList b.blank _ = (Tape.ofList a.blank input).map r.symbol
    rw [Tape.map_ofList, hab.blank]
  input := rfl
  halt := rfl
  stepCount := rfl
  log := .nil

namespace InLockstep

theorem labels (hab : a.Renames r I b) (h : InLockstep r I a b m m') (k : κ) :
    r.Labels a.label (m.unit.label k) (m'.unit.label (r.control k)) := by
  rw [h.within.1, h.unit', hab.label]
  exact ⟨k, rfl, rfl⟩

theorem status (hab : a.Renames r I b) (h : InLockstep r I a b m m') : m.status.Renamed r a.label m'.status where
  control := by
    simp only [Machine.status, h.control]
    exact h.labels hab _
  halted := congrArg Option.isSome h.halt
  stepCount := h.stepCount
  snapshot := by
    rw [snapshot_status, snapshot_status, h.unit', h.within.1, h.tape, hab.snapshot]

theorem renamed (hab : a.Renames r I b) (h : InLockstep r I a b m m') : m.Renamed r m' where
  control := h.control
  tape := h.tape
  halt := h.halt
  stepCount := h.stepCount
  status := h.within.1 ▸ h.status hab
  log := h.within.1 ▸ h.log

/-- The entries for the same step of both. -/
theorem entry (hab : a.Renames r I b) (h : InLockstep r I a b m m') {instruction instruction' : String}
    (hi : r.instruction instruction instruction') (next : κ) (t : Tape) (halt : Option Halt) :
    (m.entry instruction next t halt).Renamed r a.label
      (m'.entry instruction' (r.control next) (t.map r.symbol) halt) where
  step := h.stepCount
  before := by
    simp only [Machine.entry, h.control]
    exact h.labels hab _
  read := by
    simp only [Machine.entry, h.tape, Tape.symbol_map]
  instruction := hi
  after := h.labels hab next
  snapshot := by
    rw [snapshot_entry, snapshot_entry, h.unit', h.within.1, hab.snapshot]
  halt := rfl

theorem log_push (h : InLockstep r I a b m m') {e e' : LogEntry} (he : e.Renamed r a.label e') :
    List.Forall₂ (LogEntry.Renamed r a.label) (m.log.push e).toList (m'.log.push e').toList := by
  rw [Array.toList_push, Array.toList_push]
  exact List.rel_append h.log (.cons he .nil)

/-- Both get the same order but for the names. -/
theorem step (hab : a.Renames r I b) (h : InLockstep r I a b m m') :
    InLockstep r I a b m.next m'.next ∧ m.step.2.isStep = m'.step.2.isStep := by
  have hwithin := h.within.next hab.confined
  have horder : (m.unit.order m.control m.tape.symbol).Renamed r (m'.unit.order m'.control m'.tape.symbol) := by
    rw [h.unit', h.within.1, h.control, h.tape]
    exact hab.order _ _ h.within.2
  cases hm : m.halt with
  | some reason =>
    have hhalted : m.isHalted = true := by simp [isHalted, hm]
    have hhalted' : m'.isHalted = true := by simp [isHalted, h.halt, hm]
    rw [next_of_halted hhalted, next_of_halted hhalted', step_halted hhalted, step_halted hhalted']
    exact ⟨h, rfl⟩
  | none =>
    have hm' : m'.halt = none := h.halt.trans hm
    generalize ho : m.unit.order m.control m.tape.symbol = o at horder
    generalize ho' : m'.unit.order m'.control m'.tape.symbol = o' at horder
    cases horder with
    | stop hi =>
      rw [next_of_stop hm ho] at hwithin ⊢
      rw [next_of_stop hm' ho', step_of_stop hm ho, step_of_stop hm' ho']
      refine ⟨{ h with within := hwithin, halt := rfl, log := ?_ }, rfl⟩
      simp only [stopWith, h.control, h.tape]
      exact h.log_push (h.entry hab hi _ _ _)
    | @go _ _ write move next hi =>
      rw [next_of_go hm ho] at hwithin ⊢
      rw [next_of_go hm' ho', step_of_go hm ho, step_of_go hm' ho']
      have ht : m'.tape.perform (write.map r.symbol) move = (m.tape.perform write move).map r.symbol := by
        rw [h.tape, Tape.map_perform]
      have hcount : m'.stepCount + 1 = m.stepCount + 1 := congrArg (· + 1) h.stepCount
      refine ⟨{ h with within := hwithin, control := rfl, tape := ht, stepCount := hcount, log := ?_ }, rfl⟩
      simp only [goOn, ht]
      exact h.log_push (h.entry hab hi _ _ _)

theorem withTape (hab : a.Renames r I b) (h : InLockstep r I a b m m') (input : List Char) :
    InLockstep r I a b (m.withTape input) (m'.withTape (input.map r.symbol)) :=
  { h with
    within := h.within.withTape input
    tape := by
      simp only [Machine.withTape, h.within.1, h.unit', hab.blank, Tape.map_ofList]
    input := rfl }

theorem reset (hab : a.Renames r I b) (h : InLockstep r I a b m m') : InLockstep r I a b m.reset m'.reset where
  within := h.within.reset hab.confined
  unit' := h.unit'
  control := by
    simp only [Machine.reset, h.within.1, h.unit', hab.initial]
  tape := by
    simp only [Machine.reset, h.within.1, h.unit', h.tape, h.input, hab.restart]
  input := h.input
  halt := rfl
  stepCount := rfl
  log := .nil

theorem after (hab : a.Renames r I b) (h : InLockstep r I a b m m') (call : Call) :
    InLockstep r I a b (m.after call) (m'.after (call.map r.symbol)) := by
  cases call with
  | step => exact (h.step hab).1
  | run bound =>
    refine (run_together (Q := InLockstep r I a b) ?_ ?_ h bound).1
    · exact fun _ _ h => (h.step hab).1
    · exact fun _ _ h => (h.step hab).2
  | load input =>
    have hforeign := hab.foreign? input.toList
    simp only [Call.map, Machine.after, load, String.toList_map, h.within.1, h.unit', hforeign]
    cases a.foreign? input.toList with
    | some found => exact h
    | none =>
      have hloaded := h.withTape hab input.toList
      simp only [Machine.withTape, h.within.1, h.unit'] at hloaded
      exact hloaded
  | reset => exact h.reset hab

theorem afterAll (hab : a.Renames r I b) (h : InLockstep r I a b m m') (calls : List Call) :
    InLockstep r I a b (m.afterAll calls) (m'.afterAll (calls.map (Call.map r.symbol))) := by
  induction calls generalizing m m' with
  | nil => exact h
  | cons call calls ih => exact ih (h.after hab call)

end InLockstep

end Machine

/-- Both start on an input, each with its own symbols, and stay in lockstep under all calls. -/
theorem Automaton.Renames.renamed_afterAll {r : Renaming κ} {I : κ → Prop} {a b : Automaton κ} (h : a.Renames r I b)
    {input : String} (hi : ∀ c ∈ input.toList, a.admits c = true) :
    ∃ m m', a.start input = .ok m ∧ b.start (input.map r.symbol) = .ok m' ∧
      ∀ calls, (m.afterAll calls).Renamed r (m'.afterAll (calls.map (Call.map r.symbol))) := by
  refine ⟨_, _, start_eq_ok_iff.2 ⟨hi, rfl⟩, start_eq_ok_iff.2 ⟨?_, rfl⟩, ?_⟩
  · intro c hc
    rw [String.toList_map, List.mem_map] at hc
    obtain ⟨c, hc, rfl⟩ := hc
    rw [h.admits, hi c hc]
  · intro calls
    rw [String.toList_map]
    exact ((Machine.inLockstep_on h input.toList).afterAll h calls).renamed h

end TapeMachines
