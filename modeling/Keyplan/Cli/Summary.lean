import Keyplan.Firmware.Table
import Keyplan.Terminal.Block

/-!
The summary of a keymap: its size, and tables of its layers, chords and options.
-/

namespace Keyplan.Cli

/-! ## Tables -/

structure Grid where
  headings : List String
  rows : List (List String)

namespace Grid

open Terminal

/-- The width of the widest line of a cell. A tab takes no room of its own. -/
def cellWidth (cell : String) : Nat :=
  widest (Text.ofString cell).allLines

/-- The room for text in each column: that of its widest cell. -/
def rooms (g : Grid) : List Nat :=
  g.headings.zipIdx.map fun (heading, col) =>
    (g.rows.map fun row => cellWidth (row.getD col "")).foldl max (cellWidth heading)

/-- The width of each column. Columns of a table with rows have a blank on each side. -/
def widths (g : Grid) : List Nat :=
  g.rooms.map (· + if g.rows.isEmpty then 0 else 2)

def bar : Text := Text.ofString "│"

/-- Blocks of a height with bars between and around them. -/
def barred (height : Nat) (blocks : List (List Text)) : List Text :=
  let bars := List.replicate height bar
  beside (bars :: blocks.flatMap fun b => [b, bars])

def rule (left middle right : String) (widths : List Nat) : Text :=
  Text.ofString (left
    ++ middle.intercalate (widths.map fun w => String.ofList (List.replicate w '─')) ++ right)

/-- The lines of a row. Its highest cell decides its height. -/
def rowLines (rooms : List Nat) (row : List String) : List Text :=
  let cells := (row.map Text.ofString).zip rooms
  let height := (cells.map fun (t, room) => cellHeight room t).foldl max 1
  barred height (cells.map fun (t, room) => cell room height t)

/-- The table as lines, which are equally wide. -/
def lines (g : Grid) : List Text :=
  let ws := g.widths
  let heading := barred 1 ((g.headings.zip ws).map fun (h, w) => [pad w (Text.ofString h)])
  level 0 ([rule "╭" "┬" "╮" ws] ++ heading ++ [rule "├" "┼" "┤" ws]
    ++ g.rows.flatMap (rowLines g.rooms)
    ++ [rule "╰" "┴" "╯" ws])

end Grid

/-! ## Summaries -/

def layerGrid (m : Keymap) : Grid where
  headings := ["#", "Layer", "Keys", "Chords"]
  rows := m.layers.zipIdx.map fun (l, i) =>
    [toString i, l.name, toString l.keys.length, toString l.chords.length]

def chordGrid (t : Firmware.Table) : Grid where
  headings := ["Left", "Right", "Position"]
  rows := t.chords.map fun (pair, pos) => [pair.left.text, pair.right.text, pos.text]

def optionGrid (m : Keymap) : Grid where
  headings := ["Backend", "Option", "Value"]
  rows := Backend.all.flatMap fun b =>
    (m.options.entries b).map fun o => [b.name, o.name, o.value]

/-- The lines of a table that has rows. -/
def filled (g : Grid) : List Text :=
  if g.rows.isEmpty then [] else g.lines

/-- The custom keys of each backend that has some. -/
def customKeyLines (m : Keymap) : List String :=
  let lines := Backend.all.filterMap fun b =>
    match m.customKeys.names b with
    | [] => none
    | names => some ("  " ++ b.name ++ ": " ++ ", ".intercalate names)
  if lines.isEmpty then [] else "custom keys:" :: lines

/-- The summary of a keymap and its firmware, line by line, under the name of its source. -/
def summary (name : String) (m : Keymap) (t : Firmware.Table) : List Text :=
  let size :=
    [s!"matrix: {t.width} columns, {t.rows} rows ({t.rows - m.layout.height} for chords)",
      s!"keys:   {m.layout.keyCount}", ""]
  Terminal.block (Text.ofString name)
    ++ size.map Text.ofString
    ++ (layerGrid m).lines
    ++ filled (chordGrid t)
    ++ filled (optionGrid m)
    ++ (customKeyLines m).map Text.ofString

end Keyplan.Cli
