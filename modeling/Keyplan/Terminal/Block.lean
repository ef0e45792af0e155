import Keyplan.Terminal.Wrap

/-!
Texts laid out in rectangles: the lines of a block take equally many columns, and blocks can stand
side by side.
-/

namespace Keyplan.Terminal

/-- A text with four blanks for each tab. -/
def widenTabs (t : Text) : Text :=
  t.flatMap fun g => if g = .char '\t' then blanks 4 else [g]

/-- A text whose lines end in a line feed only. -/
def plainLineEnds : Text → Text
  | [] => []
  | [g] => [g]
  | g :: h :: rest =>
    if g = Text.carriageReturn ∧ h = Text.lineFeed then h :: plainLineEnds rest
    else g :: plainLineEnds (h :: rest)

/-- The lines of a text, made equally wide if there are several. -/
def block (t : Text) : List Text :=
  match (plainLineEnds (widenTabs t)).allLines with
  | [line] => [line]
  | lines => level 0 lines

/-- A block of a height and of `room` columns for text, with a blank on each side of it. What has no
room is left out. -/
def cell (room height : Nat) (t : Text) : List Text :=
  let lines := (wrap room (plainLineEnds (widenTabs t))).allLines
  let spaced := lines.map fun line => blanks 1 ++ line ++ blanks 1
  let filled := spaced ++ List.replicate (height - spaced.length) []
  ((level (room + 2) filled).map (cut (room + 2))).take height

/-- The lines a text takes in a cell with `room` columns for text. -/
def cellHeight (room : Nat) (t : Text) : Nat :=
  ((plainLineEnds t).allLines.map (lineCount room)).foldl (· + ·) 0

def beside (blocks : List (List Text)) : List Text :=
  let height := (blocks.map List.length).foldl max 0
  (List.range height).map fun i =>
    blocks.flatMap fun b => pad (widest b) (b.getD i [])

end Keyplan.Terminal
