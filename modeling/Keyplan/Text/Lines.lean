import Keyplan.Text

/-!
Lines of a text. A line ends at a line feed, and one carriage return before it belongs to the line
end; a final line feed opens no further line. Reading line by line stops at a line that is too long
to be held.
-/

namespace Keyplan.Text

def lineFeed : Glyph := .char '\n'

def carriageReturn : Glyph := .char '\r'

/-- The lines of a text without their line feeds. -/
def lines : Text → List Text
  | [] => []
  | g :: rest =>
    if g = lineFeed then [] :: lines rest
    else match lines rest with
      | [] => [[g]]
      | l :: ls => (g :: l) :: ls

/-- The lines of a text, all of them: a final line feed opens one more line. -/
def allLines : Text → List Text
  | [] => [[]]
  | g :: rest =>
    if g = lineFeed then [] :: allLines rest
    else match allLines rest with
      | [] => [[g]]
      | l :: ls => (g :: l) :: ls

theorem allLines_ne_nil (t : Text) : allLines t ≠ [] := by
  cases t with
  | nil => exact List.cons_ne_nil _ _
  | cons g rest =>
    rw [allLines]
    split
    · exact List.cons_ne_nil _ _
    · split <;> exact List.cons_ne_nil _ _

/-- The lines of a text with line feeds between them are the text. -/
theorem join_allLines (t : Text) : join [lineFeed] (allLines t) = t := by
  induction t with
  | nil => rfl
  | cons g rest ih =>
    rw [allLines]
    cases h : allLines rest with
    | nil => exact absurd h (allLines_ne_nil rest)
    | cons l ls =>
      rw [h] at ih
      split
      · rename_i hg
        subst hg
        rw [join, List.intercalate_cons_cons, ← join, ih]
        rfl
      · cases ls with
        | nil =>
          rw [join, List.intercalate_singleton] at ih
          subst ih
          exact List.intercalate_singleton
        | cons m ms =>
          rw [join, List.intercalate_cons_cons] at ih
          rw [join, List.intercalate_cons_cons, List.cons_append, List.cons_append, ih]

/-- `t` without one trailing carriage return. -/
def dropReturn (t : Text) : Text :=
  if t.getLast? = some carriageReturn then t.dropLast else t

def dropRightWhile (p : Glyph → Bool) (t : Text) : Text :=
  (t.reverse.dropWhile p).reverse

/-- The most bytes a line may have, its carriage return included. -/
def maxLineBytes : Nat := 65535

/-- What reading line by line yields: the lines before the first one that is too long, and whether
there is such a line. -/
structure LineReading where
  lines : List Text
  overlong : Bool
  deriving DecidableEq, Repr

def readLines (t : Text) : LineReading :=
  let fits := fun (l : Text) => decide (l.byteCount ≤ maxLineBytes)
  { lines := (t.lines.takeWhile fits).map dropReturn
    overlong := t.lines.any fun l => !fits l }

end Keyplan.Text
