import Keyplan.Files
import Keyplan.Golden.Verdict
import Keyplan.Path

/-!
The golden tests of a directory and the directories in it, in the order of their names.
-/

namespace Keyplan.Golden

/-- A test case and its path, or why there is none. -/
structure Found where
  path : String
  contents : Except String Case

def Found.run (f : Found) (defaults : List DefaultOption) : Verdict :=
  match f.contents with
  | .ok c => Golden.run f.path defaults c
  | .error reason => .unreadable reason

def readCase (text : Text) : Except String Case :=
  (Case.parse text).mapError CaseFault.message

variable {m : Type → Type} [Monad m]

def findFile (files : Files m) (path : String) : m Found := do
  match ← files.read path with
  | .error e => return ⟨path, .error e.message⟩
  | .ok text => return ⟨path, readCase text⟩

/-- The test cases at a path, at most `depth` directories deep. -/
def findCases (files : Files m) : Nat → String → m (List Found)
  | 0, _ => return []
  | depth + 1, path => do
    match ← files.stat path with
    | .error e => return [⟨path, .error e.message⟩]
    | .ok .file => return [← findFile files path]
    | .ok .directory =>
      match ← files.list path with
      | .error e => return [⟨path, .error e.message⟩]
      | .ok names =>
        let found ← names.mapM fun name => findCases files depth (Path.join path name)
        return found.flatten

/-- The deepest directory that is looked into; no path is long enough to lead deeper. -/
def maxDepth : Nat := 4096

def list (files : Files m) (path : String) : m (List Found) :=
  findCases files maxDepth path

end Keyplan.Golden
