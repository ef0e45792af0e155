import Keyplan.Files
import Keyplan.OrderedMap
import Keyplan.Path

/-!
A file system as a value: files and directories by the names on the way to them.
-/

namespace Keyplan

inductive FileNode where
  | directory
  | file (contents : Text)
  deriving DecidableEq, Repr

/-- Files and directories by the names on the way from the root, and the working directory. The
root is always a directory. -/
structure FileTree where
  nodes : OrderedMap (List String) FileNode := []
  working : List String := []

namespace FileTree

def node? (t : FileTree) (place : List String) : Option FileNode :=
  if place = [] then some .directory else t.nodes.get? place

/-- The places above a place, the root left out, the outermost first. -/
def above (place : List String) : List (List String) :=
  ((List.range place.length).map fun n => place.take n).filter (· != [])

/-- Adds a node, and the directories above it where there is nothing yet. -/
def add (t : FileTree) (place : List String) (node : FileNode) : FileTree :=
  let withParents := (above place).foldl (fun nodes dir =>
    if (OrderedMap.get? nodes dir).isSome then nodes else OrderedMap.insert dir .directory nodes)
    t.nodes
  { t with nodes := withParents.insert place node }

def maxNameBytes : Nat := 255

def maxPathBytes : Nat := 4095

/-- Takes one step from a place. Only a directory can be left. -/
def step (t : FileTree) (place : List String) (name : String) : Except FileFault (List String) :=
  match t.node? place with
  | none => .error .missing
  | some (.file _) => .error .notDirectory
  | some .directory =>
    if name = "" ∨ name = "." then .ok place
    else if name = ".." then .ok place.dropLast
    else if maxNameBytes < name.utf8ByteSize then .error .nameTooLong
    else .ok (place ++ [name])

def start (t : FileTree) (path : String) : List String :=
  if Path.isAbsolute path then [] else t.working

/-- The place a path leads to; there may be nothing there yet. -/
def place (t : FileTree) (path : String) : Except FileFault (List String) :=
  if path.toList.contains '\x00' then .error .invalidPath
  else if path = "" then .error .missing
  else if maxPathBytes < path.utf8ByteSize then .error .nameTooLong
  else (Path.names path).foldlM t.step (t.start path)

def find (t : FileTree) (path : String) : Except FileFault (List String × FileNode) := do
  let place ← t.place path
  match t.node? place with
  | some node => return (place, node)
  | none => throw .missing

/-- The names in a directory, in order. -/
def children (t : FileTree) (place : List String) : List String :=
  let below := t.nodes.filterMap fun (p, _) =>
    if p ≠ [] ∧ p.dropLast = place then p.getLast? else none
  below.mergeSort fun a b => decide (a ≤ b)

def refuse {α : Type} (step : FileStep) (path : String) (r : Except FileFault α) :
    Except FileError α :=
  r.mapError fun fault => ⟨step, path, fault⟩

def stat (t : FileTree) (path : String) : Except FileError EntryKind :=
  refuse .stat path do
    let (_, node) ← t.find path
    match node with
    | .directory => return .directory
    | .file _ => return .file

def read (t : FileTree) (path : String) : Except FileError Text := do
  let (_, node) ← refuse .opening path (t.find path)
  match node with
  | .file contents => return contents
  | .directory => throw ⟨.reading, path, .isDirectory⟩

def list (t : FileTree) (path : String) : Except FileError (List String) :=
  refuse .opening path do
    let (place, node) ← t.find path
    match node with
    | .directory => return t.children place
    | .file _ => throw .notDirectory

/-- The place a path to a file leads to. A path that ends in a slash leads to no file. -/
def filePlace (t : FileTree) (path : String) : Except FileFault (List String) := do
  let place ← t.place (Path.dropSlashes path)
  if path.endsWith "/" ∨ t.node? place = some .directory then throw .isDirectory
  return place

/-- Writes a file, which must lie in a directory. -/
def write (t : FileTree) (path : String) (contents : Text) : Except FileError FileTree :=
  refuse .opening path do
    let place ← t.filePlace path
    return t.add place (.file contents)

def files : Files (StateM FileTree) where
  stat path := do return (← get).stat path
  read path := do return (← get).read path
  list path := do return (← get).list path
  write path contents := do
    match (← get).write path contents with
    | .ok t =>
      set t
      return .ok ()
    | .error e => return .error e
  workingDirectory := do return "/" ++ "/".intercalate (← get).working

end FileTree

end Keyplan
