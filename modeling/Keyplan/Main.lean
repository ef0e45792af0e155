import Keyplan.Cli

/-!
The program: the command line on the files and the standard streams of the system.
-/

namespace Keyplan

def FileFault.ofIO : IO.Error → FileFault
  | .noFileOrDirectory .. => .missing
  | .inappropriateType .. => .notDirectory
  | e => .other (toString e)

/-- Runs an action of the system; a refusal is reported for `path`. -/
def refusing {α : Type} (step : FileStep) (path : String) (act : IO α) :
    IO (Except FileError α) := do
  match ← act.toBaseIO with
  | .ok a => return .ok a
  | .error e => return .error ⟨step, path, .ofIO e⟩

def systemStat (path : String) : IO (Except FileError EntryKind) :=
  refusing .stat path do
    let full := (← IO.currentDir) / path
    return if (← full.metadata).type == .dir then .directory else .file

def systemRead (path : String) : IO (Except FileError Text) := do
  match ← systemStat path with
  | .ok .directory => return .error ⟨.reading, path, .isDirectory⟩
  | .ok .file => refusing .opening path (Text.ofBytes <$> IO.FS.readBinFile path)
  | .error e => return .error { e with step := .opening }

def systemList (path : String) : IO (Except FileError (List String)) :=
  refusing .opening path do
    let entries ← ((← IO.currentDir) / path).readDir
    return (entries.toList.map (·.fileName)).mergeSort fun a b => decide (a ≤ b)

def systemWrite (path : String) (contents : Text) : IO (Except FileError Unit) := do
  match ← systemStat path with
  | .ok .directory => return .error ⟨.opening, path, .isDirectory⟩
  | _ => refusing .opening path (IO.FS.writeBinFile path contents.toBytes.toByteArray)

def system : Cli.Surroundings IO where
  stat := systemStat
  read := systemRead
  list := systemList
  write := systemWrite
  workingDirectory := do return (← IO.currentDir).toString
  input := do return Text.ofBytes (← (← IO.getStdin).readBinToEnd)

end Keyplan

open Keyplan in
/-- Runs a command line; the exit code tells whether it succeeded. -/
def main (args : List String) : IO UInt32 := do
  let outcome ← Cli.run system args
  (← IO.getStdout).write outcome.output.toBytes.toByteArray
  (← IO.getStderr).write outcome.errors.toBytes.toByteArray
  return if outcome.succeeded then 0 else 1
