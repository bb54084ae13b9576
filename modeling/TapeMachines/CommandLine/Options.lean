import TapeMachines.Kind
import TapeMachines.Text.Numeral
/-!
# The options of the command line

An argument is a flag, or a setting with a value. Each has a long name, and most a short one; short
ones may be joined. A value follows its setting as the next argument, or in the same one: behind an
equals sign, or directly behind a short name. Nothing may be given twice, and no argument stands
alone. Reading goes from left to right, and stops where help or the version is asked for.
-/

namespace TapeMachines.CommandLine

structure Options where
  program : Option String := none
  kind : Option Kind := none
  builtin : Option String := none
  input : Option String := none
  maxSteps : Option Nat := none
  debug : Bool := false
  json : Bool := false
  check : Bool := false
  list : Bool := false
  deriving DecidableEq, Repr

inductive Flag where
  | debug | json | check | list
  deriving DecidableEq, Repr

inductive Setting where
  | program | kind | builtin | input | maxSteps
  deriving DecidableEq, Repr

/-- Why reading ends before the last argument, or without options. -/
inductive Stop where
  | help | version | misuse
  deriving DecidableEq, Repr

/-- What the name of an argument stands for. -/
inductive Meaning where
  | flag (f : Flag)
  | setting (s : Setting)
  | stop (s : Stop)
  deriving DecidableEq, Repr

def long? : String → Option Meaning
  | "program" => some (.setting .program)
  | "kind" => some (.setting .kind)
  | "builtin" => some (.setting .builtin)
  | "input" => some (.setting .input)
  | "max-steps" => some (.setting .maxSteps)
  | "debug" => some (.flag .debug)
  | "json" => some (.flag .json)
  | "check" => some (.flag .check)
  | "list" => some (.flag .list)
  | "help" => some (.stop .help)
  | "version" => some (.stop .version)
  | _ => none

def short? : Char → Option Meaning
  | 'p' => some (.setting .program)
  | 'k' => some (.setting .kind)
  | 'b' => some (.setting .builtin)
  | 'i' => some (.setting .input)
  | 'm' => some (.setting .maxSteps)
  | 'd' => some (.flag .debug)
  | 'h' => some (.stop .help)
  | 'V' => some (.stop .version)
  | _ => none

namespace Options

/-- Raises a flag that is not up. -/
def raise? (o : Options) : Flag → Option Options
  | .debug => if o.debug then none else some { o with debug := true }
  | .json => if o.json then none else some { o with json := true }
  | .check => if o.check then none else some { o with check := true }
  | .list => if o.list then none else some { o with list := true }

/-- The value of a setting that has none, or the reading of the text that is to be its value. -/
def once {α : Type} (current value : Option α) : Option (Option α) :=
  match current, value with
  | none, some v => some (some v)
  | _, _ => none

/-- Gives a setting its value, if it has none and the value is one of its values. -/
def set? (o : Options) (s : Setting) (value : List Char) : Option Options :=
  let text := String.ofList value
  match s with
  | .program => (once o.program (some text)).map fun v => { o with program := v }
  | .kind => (once o.kind (Kind.ofName? text)).map fun v => { o with kind := v }
  | .builtin => (once o.builtin (some text)).map fun v => { o with builtin := v }
  | .input => (once o.input (some text)).map fun v => { o with input := v }
  | .maxSteps => (once o.maxSteps (Text.natural? value)).map fun v => { o with maxSteps := v }

end Options

/-! ## Reading arguments -/

structure Reader where
  options : Options
  /-- The setting whose value is to come next. -/
  pending : Option Setting
  /-- Whether two dashes have ended the options. -/
  ended : Bool

namespace Reader

def start : Reader := ⟨{}, none, false⟩

def orMisuse {α : Type} : Option α → Except Stop α
  | some a => .ok a
  | none => .error .misuse

def raise (r : Reader) (f : Flag) : Except Stop Reader :=
  (orMisuse (r.options.raise? f)).map fun o => { r with options := o }

def set (r : Reader) (s : Setting) (value : List Char) : Except Stop Reader :=
  (orMisuse (r.options.set? s value)).map fun o => { r with options := o, pending := none }

/-- A long name, with the value behind an equals sign if there is one. -/
def long (r : Reader) (name : List Char) (value : Option (List Char)) : Except Stop Reader :=
  match long? (String.ofList name), value with
  | some (.setting s), some v => r.set s v
  | some (.setting s), none => .ok { r with pending := some s }
  | some (.flag f), none => r.raise f
  | some (.stop s), none => .error s
  | _, _ => .error .misuse

/-- Short names joined in one argument. -/
def short (r : Reader) : List Char → Except Stop Reader
  | [] => .ok r
  | c :: rest =>
    match short? c with
    | some (.setting s) =>
      match rest with
      | [] => .ok { r with pending := some s }
      | '=' :: value => r.set s value
      | value => r.set s value
    | some (.flag f) =>
      match r.raise f with
      | .ok r' => r'.short rest
      | .error s => .error s
    | some (.stop s) => .error s
    | none => .error .misuse

/-- Whether an argument can be the value of the setting before it. -/
def isValue : List Char → Bool
  | '-' :: _ :: _ => false
  | _ => true

def argument (r : Reader) (arg : List Char) : Except Stop Reader :=
  if r.ended then .error .misuse
  else
    match r.pending, arg with
    | some s, value => if isValue value then r.set s value else .error .misuse
    | none, ['-', '-'] => .ok { r with ended := true }
    | none, '-' :: '-' :: rest =>
      match rest.dropWhile (· ≠ '=') with
      | _ :: value => r.long (rest.takeWhile (· ≠ '=')) (some value)
      | [] => r.long rest none
    | none, '-' :: c :: rest => r.short (c :: rest)
    | none, _ => .error .misuse

/-- The options, if something was given and nothing is missing or in conflict. -/
def finish (r : Reader) : Except Stop Options :=
  if r.pending.isSome || r.options = {} || (r.options.program.isSome && r.options.builtin.isSome) then
    .error .misuse
  else .ok r.options

end Reader

def Options.read (args : List String) : Except Stop Options :=
  match args.foldlM (fun (r : Reader) arg => r.argument arg.toList) Reader.start with
  | .ok r => r.finish
  | .error s => .error s

end TapeMachines.CommandLine
