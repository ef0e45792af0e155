/-!
Paths of files: sequences of names with slashes between them, and their shortest equivalents.
-/

namespace Keyplan.Path

/-- The names of a path. A path that starts with a slash has an empty first name. -/
def components : List Char → List (List Char)
  | [] => [[]]
  | c :: cs =>
    if c = '/' then [] :: components cs
    else match components cs with
      | [] => [[c]]
      | name :: names => (c :: name) :: names

def names (path : String) : List String :=
  (components path.toList).map String.ofList

def isAbsolute (path : String) : Bool :=
  path.toList.head? == some '/'

/-- A path without slashes at its end; the root keeps its slash. -/
def dropSlashes (path : String) : String :=
  match (path.toList.reverse.dropWhile (· == '/')).reverse with
  | [] => path
  | kept => String.ofList kept

/-- Follows one name behind the names `before`, the last one first. A step up cancels the name
before it, and does nothing at the root. -/
def follow (absolute : Bool) (before : List String) (name : String) : List String :=
  if name = "" ∨ name = "." then before
  else if name = ".." then
    match before with
    -- A relative path may lead out of where it starts.
    | [] => if absolute then [] else [".."]
    | last :: rest => if last = ".." then ".." :: before else rest
  else name :: before

/-- The shortest path with the same meaning, as long as no name is a link. -/
def clean (path : String) : String :=
  let absolute := isAbsolute path
  let kept := ((names path).foldl (follow absolute) []).reverse
  let joined := "/".intercalate kept
  if absolute then "/" ++ joined
  else if joined = "" then "."
  else joined

def join (dir path : String) : String :=
  if dir = "" then (if path = "" then "" else clean path)
  else clean (dir ++ "/" ++ path)

def directory (path : String) : String :=
  let upToSlash := (path.toList.reverse.dropWhile (· != '/')).reverse
  clean (String.ofList upToSlash)

/-- A path seen from the root, when it was seen from `working`. -/
def absolute (working path : String) : String :=
  if isAbsolute path then clean path else join working path

/-- A directory and the directories around it, the innermost one first, given its names. -/
def ancestorsOf : List String → List String
  | [] => ["/"]
  | name :: outer => ("/" ++ "/".intercalate (name :: outer).reverse) :: ancestorsOf outer

/-- An absolute directory and the directories around it, the innermost one first. -/
def ancestors (path : String) : List String :=
  ancestorsOf ((names (clean path)).filter (· != "")).reverse

end Keyplan.Path
