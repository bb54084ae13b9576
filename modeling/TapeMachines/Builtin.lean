import TapeMachines.Fault
import TapeMachines.Program
/-!
# Built-in programs

A few example listings with a tape to try them on. They are found by position, by name, or by a part
of the name; the case of letters does not matter in a name.
-/

namespace TapeMachines

structure Builtin where
  name : String
  kind : Kind
  tape : String
  listing : String
  deriving DecidableEq, Repr

namespace Builtin

def invert : Builtin where
  name := "Invert"
  kind := .turing
  tape := "101"
  listing :=
    "# Flip every bit walking right, walk back to the left edge, stop there.\n" ++
    "0 0 0 1 R\n" ++
    "0 1 0 0 R\n" ++
    "0 _ 1 _ L\n" ++
    "1 0 1 0 L\n" ++
    "1 1 1 1 L\n" ++
    "1 _ 2 _ R\n"

def binaryIncrement : Builtin where
  name := "Binary increment"
  kind := .turing
  tape := "1011"
  listing :=
    "# Add one to a binary number. The head starts on the most significant bit.\n" ++
    "# Walk to the right end.\n" ++
    "0 0 0 0 R\n" ++
    "0 1 0 1 R\n" ++
    "0 _ 1 _ L\n" ++
    "# Add one, carrying to the left.\n" ++
    "1 1 1 0 L\n" ++
    "1 0 2 1 L\n" ++
    "1 _ 2 1 L\n"

def turingAddition : Builtin where
  name := "Unary addition (Turing)"
  kind := .turing
  tape := "11+111"
  listing :=
    "# Add two unary numbers separated by '+'.\n" ++
    "# Replace the '+' by a mark, then erase the last mark.\n" ++
    "0 1 0 1 R\n" ++
    "0 + 1 1 R\n" ++
    "1 1 1 1 R\n" ++
    "1 _ 2 _ L\n" ++
    "2 1 3 _ S\n"

def unaryIncrement : Builtin where
  name := "Unary increment"
  kind := .post
  tape := "111"
  listing :=
    "1. ? 4 2\n" ++
    "2. → 1\n" ++
    "3. !\n" ++
    "4. 1 3\n"

def postAddition : Builtin where
  name := "Unary addition (Post)"
  kind := .post
  tape := "11011"
  listing :=
    "1. ? 3 2\n" ++
    "2. → 1\n" ++
    "3. 1 4\n" ++
    "4. → 5\n" ++
    "5. ? 6 4\n" ++
    "6. ← 7\n" ++
    "7. 0 8\n" ++
    "8. !\n"

def all : List Builtin := [invert, binaryIncrement, turingAddition, unaryIncrement, postAddition]

def program (b : Builtin) : Program := .ofText b.kind b.listing

/-! ## Finding a program -/

def lower (s : String) : List Char := s.toList.map Char.toLower

def ofIndex (index : Nat) : Except Fault Builtin :=
  match all[index]? with
  | some b => .ok b
  | none => .error (.noBuiltinAt index)

def ofName (name : String) : Except Fault Builtin :=
  match all.find? fun b => lower b.name = lower name with
  | some b => .ok b
  | none => .error (.noBuiltinNamed name)

/-- Whether `part` stands somewhere in `whole`. -/
def occursIn (part : List Char) : List Char → Bool
  | [] => part.isEmpty
  | c :: cs => part.isPrefixOf (c :: cs) || occursIn part cs

/-- The positions of the programs with `query` in their names. -/
def search (query : String) : List Nat :=
  (all.zipIdx.filter fun (b, _) => occursIn (lower query) (lower b.name)).map (·.2)

end Builtin

end TapeMachines
