import TapeMachines.Proofs.Analysis.Messages
import TapeMachines.Proofs.CommandLine.Figures
import TapeMachines.Proofs.CommandLine.Flags
import TapeMachines.Proofs.CommandLine.Sources
/-!
# Reports and diagnostics

The figures of a report agree with each other and with its log, in the document that is printed (`Tallies`). Asking
for diagnostics leaves the rest of the answer as it is: the warnings come before whatever else goes to the second
stream (`answer_check`), and a line for each entry of the log before the status on the first (`answer_debug`). What
these lines show is told part by part (`LogEntry.shown`, `Status.shown`, `ending`). Main statement:
`reports_tally_and_diagnostics_only_add`.
-/

namespace TapeMachines

/-! ## What a line shows -/

/-- The parts of an entry's line, each with its label. For a step these are where it went and what tape it left, for a
halt they are the reason. -/
def LogEntry.shown (e : LogEntry) : List (String × String) :=
  let instruction := if e.instruction = "" then "-" else e.instruction
  match e.halt with
  | some reason =>
    [("Step", toString e.step), ("At", e.before), ("Read", e.read.toString), ("Instruction", instruction),
      ("Halt", reason.text)]
  | none =>
    [("Step", toString e.step), ("At", e.before ++ " -> " ++ e.after), ("Read", e.read.toString),
      ("Instruction", instruction), ("Head", toString e.head), ("Tape", e.tape)]

/-- The parts of the line for a status. The tape has a line for itself. -/
def Status.shown (s : Status) : List (String × String) :=
  [("At", s.control), ("Head", toString s.head), ("Symbol", s.symbol.toString), ("Steps", toString s.stepCount),
    ("Tape starts at", toString s.origin)]

namespace CommandLine

open Files Machine

/-- Parts of a line, each behind its label. -/
def labelled (parts : List (String × String)) : String :=
  ", ".intercalate (parts.map fun part => part.1 ++ ": " ++ part.2)

theorem entryLine_eq_labelled (e : LogEntry) : Report.entryLine e = labelled e.shown := by
  unfold Report.entryLine labelled LogEntry.shown
  rw [← String.toList_inj]
  cases e.halt <;> simp [toString]

theorem statusLine_eq_labelled (s : Status) : Report.statusLine s = labelled s.shown := by
  unfold Report.statusLine labelled Status.shown
  rw [← String.toList_inj]
  simp [toString]

/-- How a run of `taken` steps came to an end. -/
def ending (reason : Option Halt) (taken : Nat) : String :=
  match reason with
  | some reason => "Machine halted: " ++ reason.text ++ "."
  | none => "Machine still running after " ++ toString taken ++ " steps."

theorem outcomeLine_eq_ending (r : Report) : r.outcomeLine = ending r.halt r.executed := by
  unfold Report.outcomeLine ending
  cases r.halt <;> rfl

variable {o : Options} {p : Program} {read : Path → Except Cause ByteArray} {stdin : Option ByteArray}

/-! ## Answers by what was loaded -/

theorem answer_of_unloaded {f : Failure} (hlist : o.list = false) (h : load o read stdin = .error f) :
    answer o read stdin = failed "" f := by
  rw [answer, hlist, if_neg Bool.false_ne_true, h]

section Loaded

variable {tape : String} (hlist : o.list = false) (hload : load o read stdin = .ok (p, tape))

include hlist hload

theorem answer_of_refused {found : ForeignSymbol} (h : p.start (o.input.getD tape) = .error found) :
    answer o read stdin = failed (warnings o p) (.fault (.foreignSymbol found)) := by
  simp only [answer, hlist, if_neg Bool.false_ne_true, hload, execute_of_refused h]

theorem answer_of_started {m : Machine p.Control} (h : p.start (o.input.getD tape) = .ok m) :
    answer o read stdin = ⟨0, (o.report m).text o, warnings o p⟩ := by
  simp only [answer, hlist, if_neg Bool.false_ne_true, hload, execute_of_started h]

end Loaded

/-! ## Where a program comes from -/

theorem exists_text_of_listing {k : Kind} {listing : String}
    (h : (Program.ofListing k listing).mapError Failure.fault = .ok p) : ∃ kind text, p = Program.ofText kind text := by
  unfold Program.ofListing at h
  split at h
  · cases h
  · cases h
    exact ⟨k, listing, rfl⟩

theorem exists_text_of_file {kind : Option Kind} {path : Path} {content : Except Cause ByteArray}
    (h : programInFile kind path content = .ok p) : ∃ kind text, p = Program.ofText kind text := by
  unfold programInFile programAt at h
  split at h
  · split at h
    · cases h
    · split at h
      · exact exists_text_of_listing h
      · cases h
  · split at h
    · exact exists_text_of_listing h
    · cases h

theorem exists_text_of_stdin {kind : Option Kind} (h : programInStdin kind stdin = .ok p) :
    ∃ kind text, p = Program.ofText kind text := by
  unfold programInStdin at h
  split at h
  · cases h
  · cases h
  · split at h
    · exact exists_text_of_listing h
    · cases h

theorem map_eq_ok_iff {α β : Type} {x : Except Failure α} {g : α → β} {b : β} :
    x.map g = .ok b ↔ ∃ a, x = .ok a ∧ g a = b := by
  cases x <;> simp [Except.map]

/-- Every program that is loaded is read from some text. -/
theorem exists_text_of_load {tape : String} (h : load o read stdin = .ok (p, tape)) :
    ∃ kind text, p = Program.ofText kind text := by
  unfold load at h
  split at h
  · obtain ⟨b, -, hb⟩ := map_eq_ok_iff.1 h
    cases hb
    exact ⟨b.kind, b.listing, rfl⟩
  · obtain ⟨p', hp, hp'⟩ := map_eq_ok_iff.1 h
    cases hp'
    exact exists_text_of_file hp
  · obtain ⟨p', hp, hp'⟩ := map_eq_ok_iff.1 h
    cases hp'
    exact exists_text_of_stdin hp

/-! ## Answers with one flag more -/

theorem load_up (o : Options) (f : Flag) : load (o.up f) read stdin = load o read stdin := by
  cases f <;> rfl

theorem report_up {κ : Type} (o : Options) (f : Flag) (m : Machine κ) : (o.up f).report m = o.report m := by
  cases f <;> rfl

theorem input_up (o : Options) (f : Flag) : (o.up f).input = o.input := by
  cases f <;> rfl

section Raised

variable {f : Flag} (hf : f ≠ .list) (hlist : o.list = false)

include hf hlist

theorem list_up : (o.up f).list = false := (Options.has_up_of_ne hf o).trans hlist

theorem answer_up_of_unloaded {failure : Failure} (h : load o read stdin = .error failure) :
    answer (o.up f) read stdin = failed "" failure :=
  answer_of_unloaded (list_up hf hlist) ((load_up o f).trans h)

variable {tape : String} (hload : load o read stdin = .ok (p, tape))

include hload

theorem answer_up_of_refused {found : ForeignSymbol} (h : p.start (o.input.getD tape) = .error found) :
    answer (o.up f) read stdin = failed (warnings (o.up f) p) (.fault (.foreignSymbol found)) := by
  rw [← input_up o f] at h
  exact answer_of_refused (list_up hf hlist) ((load_up o f).trans hload) h

theorem answer_up_of_started {m : Machine p.Control} (h : p.start (o.input.getD tape) = .ok m) :
    answer (o.up f) read stdin = ⟨0, (o.report m).text (o.up f), warnings (o.up f) p⟩ := by
  rw [← input_up o f] at h
  rw [answer_of_started (list_up hf hlist) ((load_up o f).trans hload) h, report_up]

end Raised

/-! ## Warnings and entries -/

/-- The problems of a program as warnings, a line each. -/
def warningLines (p : Program) : String := lines (p.problems.map fun problem => "warning: " ++ problem.message)

theorem warnings_up_check (o : Options) (p : Program) : warnings (o.up .check) p = warningLines p := if_pos rfl

theorem warnings_of_not_check (h : o.check = false) (p : Program) : warnings o p = "" := by
  rw [warnings, h]
  exact if_neg Bool.false_ne_true

/-- The entries of a log, a line each. -/
def entryLines (log : List LogEntry) : String := lines (log.map fun e => labelled e.shown)

theorem text_up_debug {r : Report} (hdebug : o.debug = false) :
    r.text (o.up .debug) = if o.json then r.text o else entryLines r.log ++ "\n" ++ r.text o := by
  have hentry : Report.entryLine = fun e => labelled e.shown := funext entryLine_eq_labelled
  cases hjson : o.json <;>
    simp [Report.text, Options.up, hjson, hdebug, Report.logLines, entryLines, lines, hentry, String.append_assoc]

theorem text_of_status {r : Report} (hjson : o.json = false) (hdebug : o.debug = false) :
    r.text o = lines [labelled r.status.shown, ending r.halt r.executed, r.status.tape] := by
  simp [Report.text, hjson, hdebug, Report.statusLines, statusLine_eq_labelled, outcomeLine_eq_ending]

section Added

variable {tape : String} (hlist : o.list = false) (hload : load o read stdin = .ok (p, tape))

include hlist hload

theorem answer_check_of_loaded (hcheck : o.check = false) :
    answer (o.up .check) read stdin =
      { answer o read stdin with stderr := warningLines p ++ (answer o read stdin).stderr } := by
  cases hstart : p.start (o.input.getD tape) with
  | error found =>
    rw [answer_up_of_refused (by decide) hlist hload hstart, answer_of_refused hlist hload hstart, warnings_up_check,
      warnings_of_not_check hcheck, failed, failed, String.empty_append]
  | ok m =>
    rw [answer_up_of_started (by decide) hlist hload hstart, answer_of_started hlist hload hstart, warnings_up_check,
      warnings_of_not_check hcheck, String.append_empty]
    rfl

theorem answer_debug_of_refused {found : ForeignSymbol} (hstart : p.start (o.input.getD tape) = .error found) :
    answer (o.up .debug) read stdin = answer o read stdin := by
  rw [answer_up_of_refused (by decide) hlist hload hstart, answer_of_refused hlist hload hstart]
  rfl

theorem answer_debug_of_started {m : Machine p.Control} (hdebug : o.debug = false)
    (hstart : p.start (o.input.getD tape) = .ok m) :
    answer (o.up .debug) read stdin = if o.json then answer o read stdin else
      { answer o read stdin with stdout := entryLines (o.report m).log ++ "\n" ++ (answer o read stdin).stdout } := by
  rw [answer_up_of_started (by decide) hlist hload hstart, answer_of_started hlist hload hstart,
    text_up_debug hdebug]
  cases o.json <;> rfl

end Added

/-! ## What is added -/

/-- `out'` is the answer `out` with warnings before whatever else goes to the second stream, for each problem of the
program that was loaded one, on a line of its own. -/
structure AddsWarnings (loading : Except Failure (Program × String)) (out out' : Output) : Prop where
  code : out'.code = out.code
  stdout : out'.stdout = out.stdout
  unloaded : ∀ f, loading = .error f → out'.stderr = out.stderr
  loaded : ∀ p tape, loading = .ok (p, tape) →
    out'.stderr = warningLines p ++ out.stderr ∧ ∀ q ∈ p.problems, OneLine q.message

theorem answer_check (hlist : o.list = false) (hcheck : o.check = false) (read : Path → Except Cause ByteArray)
    (stdin : Option ByteArray) :
    AddsWarnings (load o read stdin) (answer o read stdin) (answer (o.up .check) read stdin) := by
  cases hload : load o read stdin with
  | error f =>
    rw [answer_up_of_unloaded (by decide) hlist hload, answer_of_unloaded hlist hload]
    exact ⟨rfl, rfl, fun _ _ => rfl, nofun⟩
  | ok loaded =>
    obtain ⟨p, tape⟩ := loaded
    rw [answer_check_of_loaded hlist hload hcheck]
    refine ⟨rfl, rfl, nofun, ?_⟩
    rintro _ _ ⟨⟩
    obtain ⟨kind, text, rfl⟩ := exists_text_of_load hload
    exact ⟨rfl, fun q hq => Program.oneLine_message hq⟩

/-- `out'` is the answer `out` with the log before the status of a run, where this is printed as text: a line for each
entry, and an empty line. -/
structure AddsEntries (o : Options) (loading : Except Failure (Program × String)) (out out' : Output) : Prop where
  kept : o.json = true ∨ out.code ≠ 0 → out' = out
  added : o.json = false → out.code = 0 →
    ∃ (p : Program) (tape : String) (m : Machine p.Control),
      loading = .ok (p, tape) ∧ p.start (o.input.getD tape) = .ok m ∧
      let run := m.run (o.maxSteps.getD defaultMaxSteps)
      out.stdout = lines [labelled run.1.status.shown, ending run.1.halt run.2, run.1.status.tape] ∧
      out' = { out with stdout := entryLines run.1.log.toList ++ "\n" ++ out.stdout }

theorem answer_debug (hlist : o.list = false) (hdebug : o.debug = false) (read : Path → Except Cause ByteArray)
    (stdin : Option ByteArray) :
    AddsEntries o (load o read stdin) (answer o read stdin) (answer (o.up .debug) read stdin) := by
  constructor
  case kept =>
    intro h
    cases hload : load o read stdin with
    | error f => rw [answer_up_of_unloaded (by decide) hlist hload, answer_of_unloaded hlist hload]
    | ok loaded =>
      obtain ⟨p, tape⟩ := loaded
      cases hstart : p.start (o.input.getD tape) with
      | error found => exact answer_debug_of_refused hlist hload hstart
      | ok m =>
        have hcode : (answer o read stdin).code = 0 := congrArg Output.code (answer_of_started hlist hload hstart)
        have hjson : o.json = true := h.resolve_right (not_not_intro hcode)
        rw [answer_debug_of_started hlist hload hdebug hstart, if_pos hjson]
  case added =>
    intro hjson hcode
    obtain ⟨p, tape, m, hload, hstart, hanswer⟩ := exists_run_of_code hlist hcode
    refine ⟨p, tape, m, hload, hstart, ?_, ?_⟩
    · rw [hanswer]
      exact text_of_status hjson hdebug
    · rw [answer_debug_of_started hlist hload hdebug hstart, if_neg (by simp [hjson])]
      rfl

/-! ## Main theorem -/

/-- With exit code 0 what is printed as JSON is a document whose figures tally. A flag that is not given can be given
first; and wherever `--check` or `--debug` is added to arguments that can be read, and still can, code and output stay
but for this: `--check` puts the warnings of a program that was loaded before whatever else is written as an error, and
`--debug` puts the entries of the log and an empty line before the status of a run, where this is printed as text. -/
theorem reports_tally_and_diagnostics_only_add {args : List String} (h : Options.read args = .ok o)
    (hlist : o.list = false) (read : Path → Except Cause ByteArray) (stdin : Option ByteArray) (usage : Usage) :
    let out := session args read stdin usage
    (o.json = true → out.code = 0 →
      ∃ (p : Program) (tape : String) (m : Machine p.Control) (report : Json),
        load o read stdin = .ok (p, tape) ∧ p.start (o.input.getD tape) = .ok m ∧
        out.stdout = lines [report.pretty] ∧ Json.parse? out.stdout = some report ∧
        let bound := o.maxSteps.getD defaultMaxSteps
        Tallies report (m.run bound).2 bound (m.run bound).1.halt) ∧
    (∀ f, o.has f = false → Options.read (f.option :: args) = .ok (o.up f)) ∧
    ∀ before after, before ++ after = args →
      (∀ o', Options.read (before ++ "--check" :: after) = .ok o' →
        AddsWarnings (load o read stdin) out (session (before ++ "--check" :: after) read stdin usage)) ∧
      ∀ o', Options.read (before ++ "--debug" :: after) = .ok o' →
        AddsEntries o (load o read stdin) out (session (before ++ "--debug" :: after) read stdin usage) := by
  intro out
  have hout : out = answer o read stdin := session_of_read h read stdin usage
  refine ⟨?report, fun f => read_cons h, ?added⟩
  case report =>
    intro hjson hcode
    rw [hout] at hcode
    obtain ⟨p, tape, m, hload, hstart, hanswer⟩ := exists_run_of_code hlist hcode
    have htext : out.stdout = (o.report m).text o := by rw [hout, hanswer]
    refine ⟨p, tape, m, (o.report m).toJson, hload, hstart, ?_, ?_, tallies_report hstart⟩
    · rw [htext, Report.text, if_pos hjson]
    · rw [htext, Report.parse?_text hjson]
  case added =>
    rintro before after rfl
    constructor
    · intro o' h'
      obtain ⟨hcheck, rfl⟩ := of_read_insert (f := .check) h h'
      rw [hout, session_of_read h']
      exact answer_check hlist hcheck read stdin
    · intro o' h'
      obtain ⟨hdebug, rfl⟩ := of_read_insert (f := .debug) h h'
      rw [hout, session_of_read h']
      exact answer_debug hlist hdebug read stdin

/-- A run that stops at its bound, reported as JSON and as text, and warnings before the refusal of a tape. -/
theorem reports_tally_and_diagnostics_only_add_at_bound :
    let read : Path → Except Cause ByteArray := fun _ => .error .notFound
    let invert : Options := { builtin := some "invert", maxSteps := some 2 }
    let args := ["--builtin", "invert", "-m", "2"]
    let json := "--json" :: args
    let listing := "1. 1 2\n2. stop\n"
    let piped := ["--kind", "post", "--input", "12"]
    Options.read args = .ok invert ∧ Options.read json = .ok (invert.up .json) ∧
    (∃ report, (session json read none).stdout = lines [report.pretty] ∧
      Json.parse? (session json read none).stdout = some report ∧ Tallies report 2 2 none) ∧
    session (json ++ ["--debug"]) read none = session json read none ∧
    (session ["--builtin", "invert", "--debug", "-m", "2"] read none).stdout =
      "Step: 0, At: 0 -> 0, Read: 1, Instruction: 0 1 0 0 R, Head: 1, Tape: 001\n" ++
        "Step: 1, At: 0 -> 0, Read: 0, Instruction: 0 0 0 1 R, Head: 2, Tape: 011\n" ++ "\n" ++
        (session args read none).stdout ∧
    (session ["--kind", "post", "--check", "--input", "12"] read (some listing.toUTF8)).stderr =
      warningLines (.ofText .post listing) ++ (session piped read (some listing.toUTF8)).stderr ∧
    (session piped read (some listing.toUTF8)).code = 1 := by
  intro read invert args json listing piped
  have hinvert : Options.read args = .ok invert := rfl
  have hjson : Options.read json = .ok (invert.up .json) := rfl
  have hpiped : Options.read piped = .ok { kind := some .post, input := some "12" } := rfl
  have hload : load { kind := some .post, input := some "12" } read (some listing.toUTF8) =
      .ok (.ofText .post listing, "") := by
    have hsize : ¬maxListingSize < listing.utf8ByteSize := by decide +kernel
    simp only [load, programInStdin_some, Program.ofListing, if_neg hsize]
    rfl
  have hbuiltin : load invert read none = .ok (Builtin.invert.program, "101") := rfl
  have hstart : Builtin.invert.program.start "101" = .ok (Builtin.invert.program.automaton.on "101".toList) := rfl
  have hcode : (session json read none).code = 0 := by
    rw [session_of_read hjson, answer_up_of_started (by decide) rfl hbuiltin hstart]
  have hcode' : (session args read none).code = 0 := by
    rw [session_of_read hinvert, answer_of_started rfl hbuiltin hstart]
  have hrefused : (Program.ofText .post listing).start "12" = .error ⟨'2', 1⟩ := rfl
  obtain ⟨htaken, hrunning, hlog⟩ :
      let run := (Builtin.invert.program.automaton.on "101".toList).run 2
      run.2 = 2 ∧ run.1.halt = none ∧ entryLines run.1.log.toList =
        "Step: 0, At: 0 -> 0, Read: 1, Instruction: 0 1 0 0 R, Head: 1, Tape: 001\n" ++
          "Step: 1, At: 0 -> 0, Read: 0, Instruction: 0 0 0 1 R, Head: 2, Tape: 011\n" := by
    decide +kernel
  obtain ⟨hreport, -, haddedJson⟩ := reports_tally_and_diagnostics_only_add hjson rfl read none {}
  obtain ⟨-, -, haddedText⟩ := reports_tally_and_diagnostics_only_add hinvert rfl read none {}
  obtain ⟨-, -, haddedPiped⟩ := reports_tally_and_diagnostics_only_add hpiped rfl read (some listing.toUTF8) {}
  refine ⟨hinvert, hjson, ?_, ?_, ?_, ?_, ?_⟩
  · obtain ⟨p, tape, m, report, hp, hm, hstdout, hparse, htallies⟩ := hreport rfl hcode
    cases hp.symm.trans hbuiltin
    cases hm.symm.trans hstart
    have hbound : (invert.up .json).maxSteps.getD defaultMaxSteps = 2 := rfl
    simp only [hbound, htaken, hrunning] at htallies
    exact ⟨report, hstdout, hparse, htallies⟩
  · exact ((haddedJson json [] rfl).2 _ rfl).kept (.inl rfl)
  · obtain ⟨p, tape, m, hp, hm, -, hadded⟩ :=
      ((haddedText ["--builtin", "invert"] ["-m", "2"] rfl).2 _ rfl).added rfl hcode'
    cases hp.symm.trans hbuiltin
    cases hm.symm.trans hstart
    have hbound : invert.maxSteps.getD defaultMaxSteps = 2 := rfl
    simp only [hbound, hlog] at hadded
    exact congrArg Output.stdout hadded
  · exact (((haddedPiped ["--kind", "post"] ["--input", "12"] rfl).1 _ rfl).loaded _ _ hload).1
  · rw [session_of_read hpiped]
    exact congrArg Output.code (answer_of_refused rfl hload hrefused)

end CommandLine

end TapeMachines
