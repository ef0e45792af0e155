import Keyplan.Span
import Keyplan.Text.Lines

/-!
Quoting a source text in a diagnostic: the line a span starts on, and a line of carets under the
columns the span covers.
-/

namespace Keyplan

/-- The `row`-th line of a source, counted from 1, without trailing carriage returns. It is empty
when there is no such line, or when the line or one before it is too long to be read. -/
def sourceLine (source : Text) (row : Int) : Text :=
  if row ≤ 0 then []
  else
    let line := source.readLines.lines[(row - 1).toNat]?.getD []
    -- Reading lines takes one carriage return away, and none are shown.
    line.dropRightWhile (· == Text.carriageReturn)

namespace Snippet

def caretColumn (span : Span) : Nat :=
  (max 1 span.start.col).toNat

/-- The number of carets: the width of a span within one row, the rest of the line for a span that
goes on to a later row, and one otherwise. -/
def caretCount (line : Text) (span : Span) : Nat :=
  let col := caretColumn span
  if span.stop.row = span.start.row ∧ span.stop.col > col then (span.stop.col - col).toNat
  else if span.stop.row > span.start.row ∧ line.length ≥ col then line.length - col + 1
  else 1

/-- The margin in front of quoted lines. -/
def margin : Text := Text.ofString "    "

end Snippet

/-- The line a span starts on and the carets under it, or nothing when that line is empty. -/
def snippet (source : Text) (span : Span) : Text :=
  let line := sourceLine source span.start.row
  if line.isEmpty then []
  else
    Snippet.margin ++ line ++ [Text.lineFeed] ++ Snippet.margin
      ++ List.replicate (Snippet.caretColumn span - 1) (.char ' ')
      ++ List.replicate (Snippet.caretCount line span) (.char '^')

end Keyplan
