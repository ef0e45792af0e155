import Keyplan.Keymap
import Keyplan.Token

/-!
A description in canonical form: the layout, then the options, the key declarations and the layers.
The keys of every layer are aligned on the physical columns of the layout, so that layers look like
the keyboard they describe.
-/

namespace Keyplan.Format

def defaultIndent : Int := 4

/-- The widest key of a physical column, and the widest chord behind its keys. -/
structure ColumnWidth where
  key : Nat
  chord : Nat
  deriving DecidableEq, Repr

/-- The largest number of a list, or zero. -/
def largest (ns : List Nat) : Nat :=
  ns.foldl max 0

def chordColumn? (layout : Layout) (c : PlacedChord) : Option Nat :=
  (layout.keyAt? c.leftLayout).map fun (physical, _) => physical.col

/-- The widths of the physical columns over all layers. -/
def columnWidths (m : Keymap) : List ColumnWidth :=
  let keys := m.layers.flatMap fun l => l.keys.map fun k => (k.physical.col, k.key.spelling.length)
  let chords := m.layers.flatMap fun l => l.chords.map fun c =>
    (chordColumn? m.layout c, c.chord.spelling.length)
  (List.range m.layout.width).map fun col =>
    { key := largest ((keys.filter (·.1 == col)).map (·.2))
      chord := largest ((chords.filter (·.1 == some col)).map (·.2)) }

def pad (cs : List Char) (width : Nat) : List Char :=
  cs ++ List.replicate (width - cs.length) ' '

def quote (s : String) : List Char :=
  '\"' :: Token.escape s.toList ++ ['\"']

/-- The lines of a block: a heading, the indented lines of its body and the closing brace. -/
def block (indent : List Char) (heading : List Char) (lines : List (List Char)) : List Char :=
  heading ++ " \x7b\n".toList
    ++ lines.flatMap (fun line => indent ++ line ++ ";\n".toList)
    ++ "\x7d\n".toList

def layoutLine (row : LayoutRow) : List Char :=
  List.intercalate [' '] (row.items.map fun i => i.shape.spelling)

def optionLine (o : OptionLine) : List Char :=
  o.name.toList ++ ": ".toList ++ quote o.value

def outputLine (o : KeyOutput) : List Char :=
  "out ".toList ++ o.backend.toList ++ ": ".toList ++ quote o.text

/-- The cells of one physical column in a row: its key, and its chord when the column has any. -/
def columnCells (width : ColumnWidth) (key chord : List Char) : List (List Char) :=
  pad key width.key :: if width.chord = 0 then [] else [pad chord width.chord]

/-- A row of a layer, given the keys and the chords of that row. -/
def layerLine (layout : Layout) (widths : List ColumnWidth) (row : Nat) (keys : List PlacedKey)
    (chords : List PlacedChord) : List Char :=
  let cells := widths.zipIdx.flatMap fun (width, col) =>
    match layout.layoutOf? ⟨col, row⟩ with
    -- A spacer is left blank, so that the keys behind it keep their columns.
    | none => columnCells width [] []
    | some p =>
      let key := keys.find? fun k => decide (k.layout = p)
      let chord := chords.find? fun c => decide (c.leftLayout = p)
      columnCells width ((key.map (·.key.spelling)).getD [])
        ((chord.map (·.chord.spelling)).getD [])
  ((List.intercalate [' '] cells).reverse.dropWhile (· == ' ')).reverse

def layerLines (layout : Layout) (widths : List ColumnWidth) (l : Layer) : List (List Char) :=
  (List.range l.rowCount).map fun row =>
    layerLine layout widths row (l.keys.filter (·.layout.row == row))
      (l.chords.filter (·.leftLayout.row == row))

def blocks (m : Keymap) (indent : List Char) : List (List Char) :=
  let d := m.description
  let widths := columnWidths m
  [block indent "layout".toList (d.layout.rows.map layoutLine)]
    ++ d.options.map (fun o => block indent ("options ".toList ++ o.backend.toList)
        (o.options.map optionLine))
    ++ d.keys.map (fun k => block indent ("key ".toList ++ k.name.toList)
        (k.outputs.map outputLine))
    ++ m.layers.map (fun l => block indent ("layer ".toList ++ l.name.toList)
        (layerLines m.layout widths l))

/-- The canonical form of a keymap. -/
def format (m : Keymap) : Except Diagnostic (List Char) := do
  let indent ← m.options.number .formatter "indent" defaultIndent
  return List.intercalate ['\n'] (blocks m (List.replicate indent.toNat ' '))

end Keyplan.Format
