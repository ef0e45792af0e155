import Keyplan.Golden.Case

/-!
Running golden tests: the verdict on a case, and the lines that report it.
-/

namespace Keyplan.Golden

inductive Verdict where
  | passed
  /-- The case could not be read. -/
  | unreadable (reason : String)
  /-- The source compiled though a failure was expected. -/
  | noFailure
  /-- The source failed in another way than expected. -/
  | otherFailure (expected found : Text)
  /-- The source failed though an artifact was expected. -/
  | failed (f : Failure)
  /-- The source compiled to another artifact than expected. -/
  | otherArtifact (expected found : Text)

/-- Whether the bytes of `part` stand somewhere among those of `whole`. -/
def holdsBytes (part whole : List UInt8) : Bool :=
  part.isPrefixOf whole || match whole with
    | [] => false
    | _ :: rest => holdsBytes part rest

def judge (e : Expectation) (result : Except Failure String) : Verdict :=
  match e, result with
  | .failure _, .ok _ => .noFailure
  | .failure part, .error f =>
    if holdsBytes part.toBytes f.render.toBytes then .passed else .otherFailure part f.render
  | .artifact _ _, .error f => .failed f
  | .artifact _ expected, .ok out =>
    -- The expected text has lost its final line ends as it was read.
    let found := dropFinalFeeds (Text.ofString out)
    if found = expected then .passed else .otherArtifact expected found

def Expectation.target : Expectation → Target
  | artifact t _ => t
  | failure _ => .firmware

/-- Runs the case found at `path`. -/
def run (path : String) (defaults : List DefaultOption) (c : Case) : Verdict :=
  judge c.expectation (compile ⟨path, c.source⟩ defaults c.expectation.target)

/-! ## Reports -/

/-- The expected lines behind a minus sign, then the lines found behind a plus sign. -/
def difference (expected found : Text) : Text :=
  let signed := fun (sign : Char) (t : Text) => t.allLines.map (Glyph.char sign :: ·)
  Text.join [Text.lineFeed] (signed '-' expected ++ signed '+' found)

def Verdict.reason? : Verdict → Option Text
  | passed => none
  | unreadable reason => some (Text.ofString reason)
  | noFailure => some (Text.ofString "an error was expected but the compilation succeeded")
  | otherFailure _ _ => some (Text.ofString "error mismatch")
  | failed f => some f.render
  | otherArtifact _ _ => some (Text.ofString "output mismatch")

/-- How the expected text and the one found differ, where they are compared. -/
def Verdict.difference : Verdict → Text
  | otherFailure expected found => Golden.difference expected found
  | otherArtifact expected found => Golden.difference expected found
  | _ => []

def Verdict.isPassed (v : Verdict) : Bool :=
  v.reason?.isNone

def indented (margin : String) (t : Text) : Text :=
  let m := Text.ofString margin
  Text.join [Text.lineFeed] (t.allLines.map (m ++ ·))

/-- The report on the case at `path`: what went wrong, if anything, and the difference, which may
be empty. -/
def report (path : String) (reason? : Option Text) (diff : Text) : Text :=
  match reason? with
  | none => Text.ofString ("Passed " ++ path)
  | some reason =>
    Text.ofString ("Failed " ++ path ++ ":\n") ++ indented "    " reason
      ++ if diff = [] then []
         else Text.ofString "\n        (-expected +actual)\n"
           ++ indented "        " (dropFinalFeeds diff)

def Verdict.report (v : Verdict) (path : String) : Text :=
  Golden.report path v.reason? v.difference

end Keyplan.Golden
