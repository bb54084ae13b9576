import TapeMachines.CommandLine.Options
import TapeMachines.CommandLine.Report
import TapeMachines.Files.Loading
/-!
# A session of the command line

A session is a function of the arguments, of what the files hold, and of the standard input, which is
a text piped in or a terminal. It gives an exit code and what is written to the two streams: code 0 for
a report, 1 for a failure, 2 for arguments that make no sense.
-/

namespace TapeMachines.CommandLine

open Files

structure Output where
  code : Nat
  stdout : String
  stderr : String
  deriving DecidableEq, Repr

/-! ## Failures -/

inductive Failure where
  | fault (f : Fault)
  | unreadableFile (path : Path) (cause : Cause)
  | unreadableStdin (cause : Cause)
  | kindNeeded
  | nothingGiven
  deriving DecidableEq, Repr

def because (context : String) (cause : Cause) : String :=
  context ++ "\n\nCaused by:\n    " ++ cause.text

def Failure.message : Failure → String
  | fault f => f.message
  | unreadableFile path cause => because s!"Failed to read file '{path.shown}'" cause
  | unreadableStdin cause => because "Failed to read from stdin" cause
  | kindNeeded => "--kind is required when the program is read from stdin"
  | nothingGiven => "No program given: use --program, --builtin or pipe a listing into stdin"

/-! ## Loading -/

/-- The program in a file: of the kind given, or of the kind its extension tells. -/
def programInFile (kind : Option Kind) (path : Path) (content : Except Cause ByteArray) :
    Except Failure Program :=
  match kind with
  | none => (programAt path content).mapError .fault
  | some kind =>
    match textOf content with
    | .ok listing => (Program.ofListing kind listing).mapError .fault
    | .error cause => .error (.unreadableFile path cause)

/-- The program piped in, of the kind given. Nothing is read from a terminal. -/
def programInStdin (kind : Option Kind) (stdin : Option ByteArray) : Except Failure Program :=
  match stdin, kind with
  | none, _ => .error .nothingGiven
  | some _, none => .error .kindNeeded
  | some piped, some kind =>
    match textOf (.ok piped) with
    | .ok listing => (Program.ofListing kind listing).mapError .fault
    | .error cause => .error (.unreadableStdin cause)

/-- The program the options ask for, with the tape that goes with it. -/
def load (o : Options) (read : Path → Except Cause ByteArray) (stdin : Option ByteArray) :
    Except Failure (Program × String) :=
  match o.builtin, o.program with
  | some name, _ => ((Builtin.ofName name).mapError .fault).map fun b => (b.program, b.tape)
  | none, some path =>
    let path := path.toUTF8.toList
    (programInFile o.kind path (read path)).map (·, "")
  | none, none => (programInStdin o.kind stdin).map (·, "")

/-! ## Answering -/

def lines (ls : List String) : String := String.join (ls.map (· ++ "\n"))

/-- One line for each problem of the program, if they are asked for. -/
def warnings (o : Options) (p : Program) : String :=
  if o.check then lines (p.problems.map fun problem => "warning: " ++ problem.message) else ""

def Report.text (o : Options) (r : Report) : String :=
  if o.json then lines [r.toJson.pretty]
  else lines ((if o.debug then r.logLines else []) ++ r.statusLines)

def execute (o : Options) (p : Program) (input : String) : Except Failure Report :=
  match p.start input with
  | .error found => .error (.fault (.foreignSymbol found))
  | .ok m =>
    let (m', executed) := m.run (o.maxSteps.getD Machine.defaultMaxSteps)
    .ok (.ofRun m' executed)

/-- A failure, after the warnings that came before it. -/
def failed (earlier : String) (f : Failure) : Output :=
  ⟨1, "", earlier ++ lines ["Error: " ++ f.message]⟩

def answer (o : Options) (read : Path → Except Cause ByteArray) (stdin : Option ByteArray) : Output :=
  if o.list then ⟨0, lines builtinLines, ""⟩
  else
    match load o read stdin with
    | .error f => failed "" f
    | .ok (p, tape) =>
      match execute o p (o.input.getD tape) with
      | .error f => failed (warnings o p) f
      | .ok report => ⟨0, report.text o, warnings o p⟩

/-! ## Sessions -/

/-- What is printed where the version is asked for. -/
def versionLine : String := "ptm-cli 0.0.1"

/-- What the reader of arguments says of itself: where help is asked for, and after a mistake. The program has no
part in these texts. -/
structure Usage where
  help : String := ""
  mistake : String := ""

/-- The answer to a command line: `read` gives the content of a file, and `stdin` what is piped in, if it is not a
terminal. -/
def session (args : List String) (read : Path → Except Cause ByteArray) (stdin : Option ByteArray)
    (usage : Usage := {}) : Output :=
  match Options.read args with
  | .error .help => ⟨0, usage.help, ""⟩
  | .error .version => ⟨0, lines [versionLine], ""⟩
  | .error .misuse => ⟨2, "", usage.mistake⟩
  | .ok o => answer o read stdin

end TapeMachines.CommandLine
