import TapeMachines.Fault
import TapeMachines.Program
/-!
# Loading programs

A listing is read if it is not longer than `maxListingSize`; its kind is given, or told by the
extension of the file it comes from. A folder is loaded entry by entry, and one entry's fault leaves
the others alone.
-/

namespace TapeMachines

open Files

namespace Program

/-- A program from a listing of bounded length. -/
def ofListing (kind : Kind) (listing : String) : Except Fault Program :=
  if maxListingSize < listing.utf8ByteSize then .error (.listingTooLong listing.utf8ByteSize)
  else .ok (.ofText kind listing)

def listingDiagnostics (kind : Kind) (listing : String) : List Diagnostic :=
  if maxListingSize < listing.utf8ByteSize then [] else textDiagnostics kind listing

end Program

namespace Files

/-- The text that was read. -/
def textOf (content : Except Cause ByteArray) : Except Cause String :=
  match content with
  | .ok bytes =>
    match String.fromUTF8? bytes with
    | some text => .ok text
    | none => .error .notText
  | .error cause => .error cause

/-- The program in the file at `path`, of which `content` was read. -/
def programAt (path : Path) (content : Except Cause ByteArray) : Except Fault Program :=
  match path.kind? with
  | none => .error (.unknownKind path)
  | some kind =>
    match textOf content with
    | .ok listing => Program.ofListing kind listing
    | .error cause => .error (.unreadableFile path cause)

def programDiagnostics (path : Path) (content : Except Cause ByteArray) : List Diagnostic :=
  match path.kind?, textOf content with
  | some kind, .ok listing =>
    ⟨.debug, s!"Loading {kind.name} program from {path.shown}"⟩ ::
      Program.listingDiagnostics kind listing
  | _, _ => []

namespace Disk

def load (d : Disk) (path : Path) : Except Fault Program := programAt path (d.read path)

def loadDiagnostics (d : Disk) (path : Path) : List Diagnostic := programDiagnostics path (d.read path)

/-- The paths of the entries of a folder that are not folders and tell their kind. -/
def programPaths (d : Disk) (folder : Path) (entries : List Name) : List Path :=
  (entries.map folder.join).filter fun path => !d.isFolder path && path.kind?.isSome

def loadAllDiagnostics (d : Disk) (folder : Path) : List Diagnostic :=
  match d.list folder with
  | .error _ => []
  | .ok entries => (d.programPaths folder entries).flatMap d.loadDiagnostics

/-- Every program of a folder with its path, or why it was not loaded. -/
def loadAll (d : Disk) (folder : Path) : List (Except Fault (Path × Program)) :=
  if d.has folder then
    match d.list folder with
    | .error cause => [.error (.unreadableFolder folder cause)]
    | .ok entries => (d.programPaths folder entries).map fun path => (d.load path).map (path, ·)
  else [.error (.missingFolder folder)]

end Disk

end Files

end TapeMachines
