import TapeMachines.History
import TapeMachines.Json.Parser
import TapeMachines.Json.Printer
import TapeMachines.Kind
import TapeMachines.Text.Numeral
import TapeMachines.Turing.Program
/-!
# Statuses, log entries and rules as JSON

Each type has an encoder `toJson` and a decoder `ofJson?`. A record is an object with its fields in
order; a decoder also takes them in any order, beside unknown ones, or an array of all the values in
order, but no field twice. A field that holds no halt may be left out. A choice is its name, or an
object with null under the name.
-/

namespace TapeMachines

namespace Json

/-! ## Scalars -/

def ofChar (c : Char) : Json := .str c.toString

def ofOption {α : Type} (f : α → Json) : Option α → Json
  | some a => f a
  | none => .null

def nat? : Json → Option Nat
  | .int n => if 0 ≤ n ∧ n ≤ Text.maxNatural then some n.toNat else none
  | _ => none

/-- The greatest integer of 64 bits with sign; the least is one further from zero. -/
def maxInteger : Int := 0x7FFFFFFFFFFFFFFF

def int? : Json → Option Int
  | .int n => if -maxInteger - 1 ≤ n ∧ n ≤ maxInteger then some n else none
  | _ => none

def bool? : Json → Option Bool
  | .bool b => some b
  | _ => none

def str? : Json → Option String
  | .str s => some s
  | _ => none

def char? : Json → Option Char
  | .str s =>
    match s.toList with
    | [c] => some c
    | _ => none
  | _ => none

/-- The name of a choice. -/
def choice? : Json → Option String
  | .str name => some name
  | .obj [(name, .null)] => some name
  | _ => none

/-! ## Records -/

/-- The values of a record's fields, by name. -/
def record? (names : List String) : Json → Option (List (String × Json))
  | .arr items => if items.length = names.length then some (names.zip items) else none
  | .obj fields =>
    let known := fields.filter fun (name, _) => name ∈ names
    if (known.map (·.1)).Nodup then some known else none
  | _ => none

def field? {α : Type} (record : List (String × Json)) (name : String) (decode : Json → Option α) : Option α :=
  (record.lookup name).bind decode

/-- A field that may be null or left out. -/
def optionalField? {α : Type} (record : List (String × Json)) (name : String) (decode : Json → Option α) :
    Option (Option α) :=
  match record.lookup name with
  | none | some .null => some none
  | some j => (decode j).map some

end Json

open Json

/-! ## Choices -/

def Direction.name : Direction → String
  | .left => "Left"
  | .right => "Right"
  | .stay => "Stay"

def Direction.ofName? : String → Option Direction
  | "Left" => some .left
  | "Right" => some .right
  | "Stay" => some .stay
  | _ => none

def Direction.toJson (d : Direction) : Json := .str d.name

def Direction.ofJson? (j : Json) : Option Direction := j.choice?.bind ofName?

def Halt.name : Halt → String
  | .deliberate => "Deliberate"
  | .noMatchingRule => "NoMatchingRule"
  | .malformedOperands => "MalformedOperands"

def Halt.ofName? : String → Option Halt
  | "Deliberate" => some .deliberate
  | "NoMatchingRule" => some .noMatchingRule
  | "MalformedOperands" => some .malformedOperands
  | _ => none

def Halt.toJson (h : Halt) : Json := .str h.name

def Halt.ofJson? (j : Json) : Option Halt := j.choice?.bind ofName?

def Kind.title : Kind → String
  | .post => "Post"
  | .turing => "Turing"

def Kind.ofTitle? : String → Option Kind
  | "Post" => some .post
  | "Turing" => some .turing
  | _ => none

def Kind.toJson (k : Kind) : Json := .str k.title

def Kind.ofJson? (j : Json) : Option Kind := j.choice?.bind ofTitle?

/-! ## Rules, log entries and statuses -/

def Turing.Rule.toJson (r : Turing.Rule) : Json :=
  .obj [("state", .str r.state), ("read", .ofChar r.read), ("next_state", .str r.next),
    ("write", .ofChar r.write), ("direction", r.move.toJson)]

def Turing.Rule.ofJson? (j : Json) : Option Turing.Rule := do
  let r ← j.record? ["state", "read", "next_state", "write", "direction"]
  return {
    state := ← field? r "state" str?
    read := ← field? r "read" char?
    next := ← field? r "next_state" str?
    write := ← field? r "write" char?
    move := ← field? r "direction" Direction.ofJson? }

def LogEntry.toJson (e : LogEntry) : Json :=
  .obj [("step", .int e.step), ("before", .str e.before), ("read", .ofChar e.read),
    ("instruction", .str e.instruction), ("after", .str e.after), ("head", .int e.head),
    ("symbol", .ofChar e.symbol), ("tape", .str e.tape), ("origin", .int e.origin),
    ("halt", .ofOption Halt.toJson e.halt)]

def LogEntry.ofJson? (j : Json) : Option LogEntry := do
  let r ← j.record? ["step", "before", "read", "instruction", "after", "head", "symbol", "tape",
    "origin", "halt"]
  return {
    step := ← field? r "step" nat?
    before := ← field? r "before" str?
    read := ← field? r "read" char?
    instruction := ← field? r "instruction" str?
    after := ← field? r "after" str?
    head := ← field? r "head" int?
    symbol := ← field? r "symbol" char?
    tape := ← field? r "tape" str?
    origin := ← field? r "origin" int?
    halt := ← optionalField? r "halt" Halt.ofJson? }

def Status.toJson (s : Status) : Json :=
  .obj [("control", .str s.control), ("head", .int s.head), ("symbol", .ofChar s.symbol),
    ("halted", .bool s.halted), ("step_count", .int s.stepCount), ("tape", .str s.tape),
    ("origin", .int s.origin)]

def Status.ofJson? (j : Json) : Option Status := do
  let r ← j.record? ["control", "head", "symbol", "halted", "step_count", "tape", "origin"]
  return {
    control := ← field? r "control" str?
    head := ← field? r "head" int?
    symbol := ← field? r "symbol" char?
    halted := ← field? r "halted" bool?
    stepCount := ← field? r "step_count" nat?
    tape := ← field? r "tape" str?
    origin := ← field? r "origin" int? }

end TapeMachines
