import TapeMachines.Proofs.CommandLine.Documents
import TapeMachines.Proofs.History
/-!
# The figures of a report

A run counts the steps that it logs, one entry each, and a halt has the last entry for itself: short of its bound a
machine has halted, and at the bound it runs still (`accounts_run`). `Tallies` says this of a document, by the values
under the names in it and in its parts, and `tallies_report` says it of the report of a run.
-/

namespace TapeMachines

/-! ## The figures of a run -/

namespace Machine

variable {κ : Type} {m : Machine κ}

/-- The log of `m` has one entry without a halt for each step that `m` has counted. -/
def Tallied (m : Machine κ) : Prop := m.log.toList.countP (fun e => e.halt.isNone) = m.stepCount

theorem Tallied.next (h : m.Tallied) : m.next.Tallied := by
  unfold Tallied at h ⊢
  refine m.next_cases (fun _ => h) ?_ ?_
  · intro reason instruction _ _
    simp [stopWith, entry, h]
  · intro instruction write move next _ _
    simp [goOn, entry, h]

theorem Tallied.afterAll (h : m.Tallied) (calls : List Call) : (m.afterAll calls).Tallied :=
  inv_afterAll (I := Tallied) (fun _ => Tallied.next) (fun _ _ h _ => h) (fun _ _ => rfl) h calls

/-- `m` is where a run with this bound ends that took `taken` steps from the start. -/
structure Accounts (m : Machine κ) (taken bound : Nat) : Prop where
  steps : m.stepCount = taken
  entries : m.log.toList.countP (fun e => e.halt.isNone) = taken
  length : m.log.toList.length = taken + if m.isHalted then 1 else 0
  within : taken ≤ bound
  ceiling : m.halt = none ↔ taken = bound

theorem accounts_run (a : Automaton κ) (input : List Char) (bound : Nat) :
    ((a.on input).run bound).1.Accounts ((a.on input).run bound).2 bound := by
  have hlogged := (logged_on a input).afterAll rfl [.run bound]
  have htallied := Tallied.afterAll (m := a.on input) rfl [.run bound]
  have hsteps : ((a.on input).run bound).1.stepCount = ((a.on input).run bound).2 := by
    rw [run_eq, stepCount_iterate]
    exact Nat.zero_add _
  have hbound : ((a.on input).run bound).2 ≤ bound := by
    rw [run_eq]
    exact stepsIn_le bound _
  have hshort : ((a.on input).run bound).2 < bound ↔ ((a.on input).run bound).1.isHalted = true := by
    rw [run_eq]
    exact stepsIn_lt_iff bound rfl
  refine ⟨hsteps, htallied.trans hsteps, ?_, hbound, ?_⟩
  · rw [← hsteps]
    exact hlogged.size
  · rw [← isHalted_eq_false_iff, ← Bool.not_eq_true, ← hshort]
    omega

end Machine

/-! ## The figures in a document -/

namespace Json

/-- The value under a name in an object. -/
def member? : Json → String → Option Json
  | .obj fields, name => fields.lookup name
  | _, _ => none

def isNull : Json → Bool
  | .null => true
  | _ => false

@[simp] theorem ofOption_halt_eq_null_iff {reason : Option Halt} : ofOption Halt.toJson reason = .null ↔ reason = none := by
  cases reason <;> simp [ofOption, Halt.toJson]

/-- An entry of a log that has null for its halt. -/
def isStep (entry : Json) : Bool := (entry.member? "halt").any isNull

@[simp] theorem isStep_toJson (e : LogEntry) : isStep e.toJson = e.halt.isNone := by
  show isNull (ofOption Halt.toJson e.halt) = e.halt.isNone
  cases e.halt <;> rfl

end Json

namespace CommandLine

open Files Machine Json

/-- The document `report` tells of a run that took `taken` steps and came to the halt `reason`, if to one. Its figures
agree with each other and with the bound of the run. -/
structure Tallies (report : Json) (taken bound : Nat) (reason : Option Halt) : Prop where
  executed : report.member? "executed" = some (.int taken)
  stepCount : (report.member? "status").bind (·.member? "step_count") = some (.int taken)
  halt : report.member? "halt" = some (.ofOption Halt.toJson reason)
  halted : (report.member? "status").bind (·.member? "halted") = some (.bool reason.isSome)
  running : report.member? "halt" = some .null ↔
    (report.member? "status").bind (·.member? "halted") = some (.bool false)
  ceiling : report.member? "halt" = some .null ↔ taken = bound
  within : taken ≤ bound
  log : ∃ entries, report.member? "log" = some (.arr entries) ∧ entries.countP isStep = taken ∧
    entries.length = taken + if reason.isSome then 1 else 0

/-! ### The values under the names -/

section Members

variable (r : Report)

@[simp] theorem member?_executed : r.toJson.member? "executed" = some (.int r.executed) := rfl

@[simp] theorem member?_halt : r.toJson.member? "halt" = some (.ofOption Halt.toJson r.halt) := rfl

@[simp] theorem member?_status : r.toJson.member? "status" = some r.status.toJson := rfl

@[simp] theorem member?_log : r.toJson.member? "log" = some (.arr (r.log.map LogEntry.toJson)) := rfl

@[simp] theorem member?_stepCount (s : Status) : s.toJson.member? "step_count" = some (.int s.stepCount) := rfl

@[simp] theorem member?_halted (s : Status) : s.toJson.member? "halted" = some (.bool s.halted) := rfl

end Members

theorem tallies_ofRun {κ : Type} {m : Machine κ} {taken bound : Nat} (h : m.Accounts taken bound) :
    Tallies (Report.ofRun m taken).toJson taken bound m.halt where
  executed := rfl
  stepCount := by simp [Report.ofRun, status, h.steps]
  halt := rfl
  halted := rfl
  running := by simp [Report.ofRun, status, isHalted]
  ceiling := by simp [Report.ofRun, h.ceiling]
  within := h.within
  log := by
    refine ⟨_, member?_log _, ?_, ?_⟩
    · rw [List.countP_map, ← h.entries]
      exact List.countP_congr fun e _ => by simp
    · rw [List.length_map]
      exact h.length

theorem tallies_report {o : Options} {p : Program} {input : String} {m : Machine p.Control}
    (h : p.start input = .ok m) :
    let bound := o.maxSteps.getD defaultMaxSteps
    Tallies (o.report m).toJson (m.run bound).2 bound (m.run bound).1.halt := by
  obtain ⟨-, rfl⟩ := Automaton.start_eq_ok_iff.1 h
  exact tallies_ofRun (accounts_run p.automaton input.toList _)

end CommandLine

end TapeMachines
