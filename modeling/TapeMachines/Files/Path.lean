import TapeMachines.Kind
import TapeMachines.Text.Utf8
/-!
# Paths

A path is a sequence of bytes; `/` separates its components. A path names a program of a kind if its
last component has that kind's extension.
-/

namespace TapeMachines.Files

abbrev Name := List UInt8

abbrev Path := List UInt8

/-- The bytes of a name written in ASCII. -/
def ascii (name : String) : Name := name.toList.map fun c => c.toNat.toUInt8

def slash : UInt8 := 0x2F

def dot : UInt8 := 0x2E

namespace Path

/-- The path as messages show it. -/
def shown (p : Path) : String := String.ofList (Text.decodeLossy p)

def components (p : Path) : List Name := p.splitOn slash

/-- The last component that is a name, unless the path ends by going up. -/
def fileName? (p : Path) : Option Name :=
  match (p.components.filter fun c => c ≠ [] ∧ c ≠ [dot]).getLast? with
  | some name => if name = [dot, dot] then none else some name
  | none => none

/-- What follows the last dot of a name that has one after its first byte. -/
def extension? (name : Name) : Option Name :=
  match name.reverse.dropWhile (· ≠ dot) with
  | _ :: _ :: _ => some (name.reverse.takeWhile (· ≠ dot)).reverse
  | _ => none

def kind? (p : Path) : Option Kind :=
  match p.fileName?.bind extension? with
  | some e =>
    if e = ascii Kind.post.extension then some .post
    else if e = ascii Kind.turing.extension then some .turing
    else none
  | none => none

/-- The path of an entry of a folder. -/
def join (folder : Path) (name : Name) : Path :=
  if folder = [] ∨ folder.getLast? = some slash then folder ++ name else folder ++ slash :: name

example : kind? (ascii "d/a.x.post/.") = some .post := by decide

example : kind? (ascii "d/.post") = none := by decide

end Path

end TapeMachines.Files
