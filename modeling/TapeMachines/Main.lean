import TapeMachines.CommandLine.Session
/-!
# The program

Reads the file the arguments name, or the standard input, and prints the answer of the session.
-/

namespace TapeMachines

open Files CommandLine

/-- The cause behind an error of the system. A folder opened as a file and a file used as a folder
are told apart by number, and so is a name that is too long; the runtime may give the number
negated. -/
def causeOf : IO.Error → Cause
  | .noFileOrDirectory .. => .notFound
  | .inappropriateType _ code _ => if code = 21 ∨ code = 0 - 21 then .isFolder else .notFolder
  | e@(.invalidArgument _ code _) =>
    if code = 36 ∨ code = 0 - 36 then .tooLong else .system (toString e)
  | .permissionDenied .. => .system "Permission denied (os error 13)"
  | e => .system (toString e)

def readFile (name : String) : IO (Except Cause ByteArray) := do
  if name.toList.contains (Char.ofNat 0) then return .error .nullInPath
  try
    return .ok (← IO.FS.readBinFile name)
  catch e => return .error (causeOf e)

/-- What the options name: the content of the program file, and what is piped in if the standard input is read. -/
def sources (o : Options) : IO (Except Cause ByteArray × Option ByteArray) := do
  if o.list || o.builtin.isSome then return (.error .notFound, none)
  match o.program with
  | some name => return (← readFile name, none)
  | none =>
    let stdin ← IO.getStdin
    if ← stdin.isTty then return (.error .notFound, none)
    return (.error .notFound, some (← stdin.readBinToEnd))

/-- What the program is for, and how it is called. -/
def about : String :=
  lines ["Runs Post and Turing machine programs and prints the final tape.",
    "",
    "EXAMPLES:",
    "  ptm-cli --program programs/invert.tur --input 101",
    "  ptm-cli --builtin 'Unary increment' --debug",
    "  cat listing.post | ptm-cli --kind post --input 0110"]

def main (args : List String) : IO UInt32 := do
  let (content, stdin) ← match Options.read args with
    | .ok o => sources o
    | .error _ => pure (.error .notFound, none)
  let out := session args (fun _ => content) stdin ⟨about, about⟩
  IO.print out.stdout
  IO.eprint out.stderr
  return out.code.toUInt32

end TapeMachines

def main (args : List String) : IO UInt32 := TapeMachines.main args
