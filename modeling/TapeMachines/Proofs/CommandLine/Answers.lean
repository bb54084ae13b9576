import TapeMachines.CommandLine.Session
/-!
# What an answer can be

`answer_cases` is all that a session with accepted options can do: list the built-in programs, fail to load a
program, refuse the input, or report a run. Later proofs split on these and leave `answer` closed. What the answer
goes by is the program with its input (`loaded`) and the manner in which to run and report it (`answer_congr`).
-/

namespace TapeMachines.CommandLine

open Files

/-- The report of a run of `m` as the options ask for it. -/
def Options.report {κ : Type} (o : Options) (m : Machine κ) : Report :=
  let run := m.run (o.maxSteps.getD Machine.defaultMaxSteps)
  .ofRun run.1 run.2

variable {o : Options} {p : Program}

theorem execute_of_refused {input : String} {found : ForeignSymbol} (h : p.start input = .error found) :
    execute o p input = .error (.fault (.foreignSymbol found)) := by
  rw [execute, h]

theorem execute_of_started {input : String} {m : Machine p.Control} (h : p.start input = .ok m) :
    execute o p input = .ok (o.report m) := by
  rw [execute, h]
  rfl

@[elab_as_elim]
theorem answer_cases (o : Options) (read : Path → Except Cause ByteArray) (stdin : Option ByteArray)
    {motive : Output → Prop}
    (list : o.list = true → motive ⟨0, lines builtinLines, ""⟩)
    (unloaded : ∀ f, o.list = false → load o read stdin = .error f → motive (failed "" f))
    (refused : ∀ p tape found, o.list = false → load o read stdin = .ok (p, tape) →
      p.start (o.input.getD tape) = .error found → motive (failed (warnings o p) (.fault (.foreignSymbol found))))
    (ran : ∀ p tape m, o.list = false → load o read stdin = .ok (p, tape) → p.start (o.input.getD tape) = .ok m →
      motive ⟨0, (o.report m).text o, warnings o p⟩) : motive (answer o read stdin) := by
  unfold answer
  split
  · next h => exact list h
  · next h =>
    have hlist : o.list = false := by simpa using h
    cases hload : load o read stdin with
    | error f => exact unloaded f hlist hload
    | ok loaded =>
      obtain ⟨p, tape⟩ := loaded
      cases hstart : p.start (o.input.getD tape) with
      | error found =>
        simp only [execute_of_refused hstart]
        exact refused p tape found hlist hload hstart
      | ok m =>
        simp only [execute_of_started hstart]
        exact ran p tape m hlist hload hstart

/-- With exit code 0, what is not the list is the report of a run. -/
theorem exists_run_of_code {read : Path → Except Cause ByteArray} {stdin : Option ByteArray} (hlist : o.list = false)
    (hcode : (answer o read stdin).code = 0) :
    ∃ (p : Program) (tape : String) (m : Machine p.Control), load o read stdin = .ok (p, tape) ∧
      p.start (o.input.getD tape) = .ok m ∧ answer o read stdin = ⟨0, (o.report m).text o, warnings o p⟩ := by
  revert hcode
  refine answer_cases o read stdin ?_ ?_ ?_ ?_
  · intro h
    rw [hlist] at h
    cases h
  · intro f _ _ hcode
    cases hcode
  · intro p tape found _ _ _ hcode
    cases hcode
  · intro p tape m _ hload hstart _
    exact ⟨p, tape, m, hload, hstart, rfl⟩

/-! ## What an answer goes by -/

/-- The options that say how to run and report a program, and not which. -/
def Options.manner (o : Options) : Options :=
  { maxSteps := o.maxSteps, debug := o.debug, json := o.json, check := o.check, list := o.list }

/-- The program that is asked for, and the input to run it on. -/
def loaded (o : Options) (read : Path → Except Cause ByteArray) (stdin : Option ByteArray) :
    Except Failure (Program × String) :=
  (load o read stdin).map fun l => (l.1, o.input.getD l.2)

/-- The answer on a program and an input, or on the failure to have these. -/
def respond (o : Options) : Except Failure (Program × String) → Output
  | .error f => failed "" f
  | .ok (p, input) =>
    match execute o p input with
    | .error f => failed (warnings o p) f
    | .ok report => ⟨0, report.text o, warnings o p⟩

theorem answer_eq_respond {read : Path → Except Cause ByteArray} {stdin : Option ByteArray} (hlist : o.list = false) :
    answer o read stdin = respond o.manner (loaded o read stdin) := by
  rw [answer, hlist, if_neg Bool.false_ne_true, loaded]
  cases load o read stdin <;> rfl

theorem answer_congr {o' : Options} {read read' : Path → Except Cause ByteArray} {stdin stdin' : Option ByteArray}
    (hlist : o.list = false) (hmanner : o.manner = o'.manner) (h : loaded o read stdin = loaded o' read' stdin') :
    answer o read stdin = answer o' read' stdin' := by
  have hlist' : o'.list = false := by
    rw [← hlist]
    exact (congrArg Options.list hmanner).symm
  rw [answer_eq_respond hlist, answer_eq_respond hlist', hmanner, h]

/-! ## Sessions -/

theorem session_of_read {args : List String} (h : Options.read args = .ok o) (read : Path → Except Cause ByteArray)
    (stdin : Option ByteArray) (usage : Usage) : session args read stdin usage = answer o read stdin := by
  rw [session, h]

end TapeMachines.CommandLine
