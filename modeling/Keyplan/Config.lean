import Keyplan.Defaults
import Keyplan.Files
import Keyplan.Path
import Keyplan.Toml.Document

/-!
The configuration of a project: how much is logged, where artifacts go, and default options. It is
read from the nearest `kbdl.toml`.
-/

namespace Keyplan

structure Config where
  logLevel : String := "info"
  firmwareOutput : String := ""
  diagramOutput : String := ""
  options : List (DefaultTable String) := []
  /-- The file the configuration was read from, or nothing. -/
  path : String := ""
  /-- The keys of the file that mean nothing. -/
  unknownKeys : List String := []

namespace Config

def fileName : String := "kbdl.toml"

/-- Why there is no configuration. -/
inductive Fault where
  | unreadable (path reason : String)
  | invalid (path reason : String)
  deriving DecidableEq, Repr

def Fault.message : Fault → String
  | unreadable path reason => "cannot read config " ++ path ++ ": " ++ reason
  | invalid path reason => "invalid config " ++ path ++ ": " ++ reason

/-! ## Fields -/

/-- A character with its case and its look-alikes left aside. -/
def foldChar (c : Char) : Char :=
  if c = '\u017F' then 's' else if c = '\u212A' then 'k' else c.toLower

/-- Whether a key names a field; case does not matter. -/
def namesField (field key : String) : Bool :=
  key.toList.map foldChar == field.toList

/-- The entries that name a field, those in another case first. -/
def fieldEntries (t : Toml.Table) (field : String) : List (String × Toml.Value) :=
  let entries := t.filter fun (key, _) => namesField field key
  entries.filter (·.1 != field) ++ entries.filter (·.1 == field)

/-- The text of a field, or `default` when it is not set. -/
def textField? (t : Toml.Table) (field default : String) : Option String :=
  (fieldEntries t field).foldlM (fun _ (_, v) => match v with
    | .text s => some s
    | _ => none) default

def tableField? (t : Toml.Table) (field : String) : Option (List Toml.Table) :=
  (fieldEntries t field).mapM fun (_, v) => match v with
    | .table entries => some entries
    | _ => none

def tableEntries : Toml.Value → Toml.Table
  | .table entries => entries
  | _ => []

/-- The option tables; what is no table is left aside. -/
def optionTables (t : Toml.Table) : List (DefaultTable String) :=
  let backends := (fieldEntries t "options").flatMap fun (_, v) => tableEntries v
  backends.map fun (backend, v) =>
    ⟨backend, (tableEntries v).map fun (name, value) => (name, value.shown)⟩

/-! ## Known keys -/

def hasEntry (v : Option Toml.Value) (name : String) : Bool :=
  match v with
  | some (.table entries) => (OrderedMap.get? entries name).isSome
  | _ => false

/-- Whether a key means something, and is still there: an entry of a table that was replaced means
nothing. -/
def isKnown (root : Toml.Table) : Toml.Key → Bool
  | [field] =>
    ["log_level", "output", "options"].any (namesField · field) && (root.get? field).isSome
  | [field, name] =>
    hasEntry (root.get? field) name && (namesField "options" field
      || (namesField "output" field && ["firmware", "diagram"].any (namesField · name)))
  | [field, backend, name] =>
    namesField "options" field && match root.get? field with
      | some (.table backends) => hasEntry (OrderedMap.get? backends backend) name
      | _ => false
  | _ => false

/-! ## Reading -/

/-- The path of an artifact, seen from the directory of the configuration file. -/
def outputPath (dir path : String) : String :=
  if path = "" ∨ Path.isAbsolute path then path else Path.join dir path

/-- The configuration that a file at `path` defines, if its fields have the right types. -/
def ofDefinitions? (path : String) (d : Toml.Definitions) : Option Config := do
  let dir := Path.directory path
  let logLevel ← textField? d.root "log_level" "info"
  let outputs ← tableField? d.root "output"
  let firmware ← outputs.foldlM (fun p t => textField? t "firmware" p) ""
  let diagram ← outputs.foldlM (fun p t => textField? t "diagram" p) ""
  return {
    logLevel := logLevel
    firmwareOutput := outputPath dir firmware
    diagramOutput := outputPath dir diagram
    options := optionTables d.root
    path := path
    unknownKeys := (d.keys.filter fun key => !isKnown d.root key).map Toml.keyText }

def ofText (path : String) (text : Text) : Except Fault Config := do
  let some d := Toml.read? text | throw (.unreadable path "malformed")
  let some c := ofDefinitions? path d | throw (.unreadable path "ill-typed")
  match Defaults.ofTables c.options with
  | .ok _ => return c
  | .error reason => throw (.invalid path reason)

def defaults (c : Config) : Except String Defaults :=
  Defaults.ofTables c.options

variable {m : Type → Type} [Monad m]

def load (files : Files m) (path : String) : m (Except Fault Config) := do
  match ← files.read path with
  | .ok text => return ofText path text
  | .error e => return .error (.unreadable path e.message)

/-- The first of some directories that has a configuration file. -/
def findIn (files : Files m) : List String → m (Option String)
  | [] => return none
  | dir :: rest => do
    let path := Path.join dir fileName
    match ← files.stat path with
    | .ok _ => return some path
    | .error _ => findIn files rest

/-- The configuration file nearest to a directory: in it, or in the directories around it. -/
def find (files : Files m) (dir : String) : m (Option String) := do
  let working ← files.workingDirectory
  findIn files (Path.ancestors (Path.absolute working dir))

/-- The configuration for a directory, which may be the usual one. -/
def loadFor (files : Files m) (dir : String) : m (Except Fault Config) := do
  match ← find files dir with
  | some path => load files path
  | none => return .ok {}

end Config

end Keyplan
