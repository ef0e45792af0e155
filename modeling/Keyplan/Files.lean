import Keyplan.Text

/-!
Files as a program sees them: what can be asked of a file system, and how a refusal is reported.
-/

namespace Keyplan

inductive FileFault where
  | missing
  | notDirectory
  | isDirectory
  | invalidPath
  | nameTooLong
  | other (reason : String)
  deriving DecidableEq, Repr

def FileFault.reason : FileFault → String
  | missing => "no such file or directory"
  | notDirectory => "not a directory"
  | isDirectory => "is a directory"
  | invalidPath => "invalid argument"
  | nameTooLong => "file name too long"
  | other reason => reason

/-- What was being done when an operation was refused. -/
inductive FileStep where
  | stat
  | opening
  | reading
  deriving DecidableEq, Repr

def FileStep.name : FileStep → String
  | stat => "stat"
  | opening => "open"
  | reading => "read"

structure FileError where
  step : FileStep
  path : String
  fault : FileFault
  deriving DecidableEq, Repr

def FileError.message (e : FileError) : String :=
  e.step.name ++ " " ++ e.path ++ ": " ++ e.fault.reason

inductive EntryKind where
  | file
  | directory
  deriving DecidableEq, Repr

/-- A file system that is asked in a monad. -/
structure Files (m : Type → Type) where
  stat : String → m (Except FileError EntryKind)
  read : String → m (Except FileError Text)
  /-- The names in a directory, in order. -/
  list : String → m (Except FileError (List String))
  write : String → Text → m (Except FileError Unit)
  workingDirectory : m String

end Keyplan
