import TapeMachines.Files.Disk
import TapeMachines.Machine
import TapeMachines.Text.Quoted
/-!
# Faults

Why a program or an input was not accepted, and the message for each cause.
-/

namespace TapeMachines

/-- The length of the longest listing that is read, in bytes. -/
def maxListingSize : Nat := 65536

inductive Fault where
  | foreignSymbol (found : ForeignSymbol)
  | listingTooLong (bytes : Nat)
  | noBuiltinAt (index : Nat)
  | noBuiltinNamed (name : String)
  | unknownKind (path : Files.Path)
  | unreadableFile (path : Files.Path) (cause : Files.Cause)
  | missingFolder (path : Files.Path)
  | unreadableFolder (path : Files.Path) (cause : Files.Cause)
  deriving DecidableEq, Repr

def Fault.message : Fault → String
  | foreignSymbol found =>
    "Invalid tape symbol " ++ Text.quoteChar found.symbol ++ s!" at position {found.position}"
  | listingTooLong bytes =>
    s!"Program validation error: Program is {bytes} bytes, the limit is {maxListingSize} bytes"
  | noBuiltinAt index => s!"Program validation error: Program index {index} out of range"
  | noBuiltinNamed name => s!"Program validation error: Program '{name}' not found"
  | unknownKind path =>
    s!"File error: Unknown program type for {path.shown} (expected " ++
      s!".{Kind.post.extension} or .{Kind.turing.extension})"
  | unreadableFile path cause => s!"File error: Failed to read file {path.shown}: {cause.text}"
  | missingFolder path => s!"File error: Directory {path.shown} does not exist"
  | unreadableFolder path cause => s!"File error: Failed to read directory {path.shown}: {cause.text}"

end TapeMachines
