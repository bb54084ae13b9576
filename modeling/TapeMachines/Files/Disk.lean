import TapeMachines.Files.Path
/-!
# A disk

The files and folders below a working folder, each known by the names that lead to it. Paths are
followed name by name from the working folder; what lies outside it is there and empty. The system is
Linux: its limits on names and paths, and its words for what went wrong.
-/

namespace TapeMachines.Files

/-- Why the system refuses to open or read a path. -/
inductive Cause where
  | notFound | notFolder | isFolder | tooLong | nullInPath | notText
  /-- Any other cause, in the system's words. -/
  | system (message : String)
  deriving DecidableEq, Repr

def Cause.text : Cause → String
  | .notFound => "No such file or directory (os error 2)"
  | .notFolder => "Not a directory (os error 20)"
  | .isFolder => "Is a directory (os error 21)"
  | .tooLong => "File name too long (os error 36)"
  | .nullInPath => "file name contained an unexpected NUL byte"
  | .notText => "stream did not contain valid UTF-8"
  | .system message => message

inductive Node where
  | file (content : ByteArray)
  | folder

structure Disk where
  entries : List (List Name × Node)

/-- Where a path leads. -/
inductive Place where
  | inside (names : List Name) (node : Node)
  | outside

namespace Disk

def empty : Disk := ⟨[]⟩

/-! ## Contents -/

def node? (d : Disk) (names : List Name) : Option Node :=
  if names = [] then some .folder else (d.entries.find? (·.1 = names)).map (·.2)

/-- The names of what stands in a folder, in the order it was added. -/
def children (d : Disk) (names : List Name) : List Name :=
  d.entries.filterMap fun (path, _) => if path.dropLast = names then path.getLast? else none

def put (d : Disk) (names : List Name) (node : Node) : Disk :=
  ⟨d.entries.filter (·.1 ≠ names) ++ [(names, node)]⟩

/-- Adds the folders on the way to an entry that are not there. -/
def addParents (d : Disk) (names : List Name) : Disk :=
  (List.range names.length).foldl (fun d k =>
    if (d.node? (names.take k)).isSome then d else d.put (names.take k) .folder) d

/-- Puts an entry in its place, with the folders on the way. -/
def add (d : Disk) (names : List Name) (node : Node) : Disk := (d.addParents names).put names node

/-! ## Following a path -/

/-- The most bytes that Linux takes for a name on a path (`NAME_MAX`). -/
def maxNameLength : Nat := 255

/-- The most bytes that Linux takes for a path (`PATH_MAX`, less the byte that ends it). -/
def maxPathLength : Nat := 4095

/-- Why no entry has the name that was looked for. -/
def missing (name : Name) : Cause := if maxNameLength < name.length then .tooLong else .notFound

def enter (d : Disk) (name : Name) : Place → Except Cause Place
  | .inside _ (.file _) => .error .notFolder
  | .inside names .folder =>
    if name = [] ∨ name = [dot] then .ok (.inside names .folder)
    else if name = [dot, dot] then .ok (if names = [] then .outside else .inside names.dropLast .folder)
    else
      match d.node? (names ++ [name]) with
      | some node => .ok (.inside (names ++ [name]) node)
      | none => .error (missing name)
  | .outside =>
    if name = [] ∨ name = [dot] ∨ name = [dot, dot] then .ok .outside else .error (missing name)

def start (p : Path) : Place :=
  if p.head? = some slash then .outside else .inside [] .folder

def follow (d : Disk) (p : Path) : Except Cause Place :=
  if 0 ∈ p then .error .nullInPath
  else if p = [] then .error .notFound
  else if maxPathLength < p.length then .error .tooLong
  else p.components.foldlM (fun place name => d.enter name place) (start p)

def has (d : Disk) (p : Path) : Bool :=
  match d.follow p with
  | .ok _ => true
  | .error _ => false

/-- A path that leads to a folder. -/
def isFolder (d : Disk) (p : Path) : Bool :=
  match d.follow p with
  | .ok (.inside _ (.file _)) => false
  | .ok _ => true
  | .error _ => false

/-- The content of a file. -/
def read (d : Disk) (p : Path) : Except Cause ByteArray :=
  match d.follow p with
  | .ok (.inside _ (.file content)) => .ok content
  | .ok _ => .error .isFolder
  | .error cause => .error cause

/-- The names of the entries of a folder. -/
def list (d : Disk) (p : Path) : Except Cause (List Name) :=
  match d.follow p with
  | .ok (.inside names .folder) => .ok (d.children names)
  | .ok (.inside _ (.file _)) => .error .notFolder
  | .ok .outside => .ok []
  | .error cause => .error cause

end Disk

end TapeMachines.Files
