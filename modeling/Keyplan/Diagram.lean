import Keyplan.Keymap
import Keyplan.Yaml

/-!
The diagram of a keymap: the labels of every layer, row by row, and the chords as combinations of
two keys. Chords of several layers that sit between the same keys under the same label are one
combination.
-/

namespace Keyplan.Diagram

/-- The label of a key. A key without labels is drawn blank. -/
structure KeyLabel where
  tap : String := ""
  hold : String := ""
  deriving DecidableEq, Repr

structure LayerLabels where
  name : String
  rows : List (List KeyLabel)
  deriving DecidableEq, Repr

/-- A chord as a combination of two neighbouring keys. Keys are numbered row by row, and
`firstKey` is the left one. -/
structure Combo where
  firstKey : Int
  left : MatrixPos
  right : MatrixPos
  label : KeyLabel
  layers : List String
  deriving DecidableEq, Repr

structure Document where
  keyboard : String
  layout : String
  layers : List LayerLabels
  combos : List Combo
  deriving DecidableEq, Repr

/-! ## Labels -/

def plainLabel (m : Keymap) (k : PlainKey) : Except Diagnostic String :=
  match k.meaning with
  | .layer name => do
    -- The name is the label, but it has to be the name of a layer.
    let _ ← m.resolveLayer name k.span
    return name
  | .char c _ => do
    let _ ← Keymap.resolveChar c k.span
    return String.singleton c
  | .named name => do
    match ← m.resolveName .diagram name k.span with
    | .custom output => return output.text
    | .named key => return key.code

def keyLabel (m : Keymap) (k : Key) : Except Diagnostic KeyLabel := do
  let tap ← plainLabel m k.tap
  match k.hold with
  | none => return { tap := tap }
  | some h => return { tap := tap, hold := ← plainLabel m h.key }

/-- The labels of a layer on the keys of the layout; a key the layer does not have is blank. -/
def labelRows (layout : Layout) (labels : OrderedMap LayoutPos KeyLabel) : List (List KeyLabel) :=
  layout.keyCounts.zipIdx.map fun (count, row) =>
    let inRow : OrderedMap LayoutPos KeyLabel := labels.filter fun e => e.1.row == row
    (List.range count).map fun col => (inRow.get? ⟨col, row⟩).getD {}

def labelLayer (m : Keymap) (l : Layer) : Except Diagnostic LayerLabels := do
  let labels ← l.keys.mapM fun k => do return (k.layout, ← keyLabel m k.key)
  return { name := l.name, rows := labelRows m.layout labels }

/-! ## Combinations -/

/-- Whether two combinations are the same but for their layers. -/
def Combo.matches (c d : Combo) : Bool :=
  c.left == d.left && c.right == d.right && c.label == d.label

/-- Adds a layer behind the layers of a combination, unless it is the last one already. -/
def Combo.addLayer (c : Combo) (name : String) : Combo :=
  if c.layers.getLast? = some name then c else { c with layers := c.layers ++ [name] }

def addCombo (name : String) (c : Combo) : List Combo → List Combo
  | [] => [c]
  | d :: rest => if d.matches c then d.addLayer name :: rest else d :: addCombo name c rest

def chordCombo (m : Keymap) (name : String) (c : PlacedChord) : Except Diagnostic Combo := do
  let label ← keyLabel m c.chord.key
  return {
    firstKey := m.layout.keyIndex c.leftLayout.col c.leftLayout.row
    left := c.left
    right := c.right
    label := label
    layers := [name] }

def addChords (m : Keymap) (l : Layer) (combos : List Combo) : Except Diagnostic (List Combo) :=
  l.chords.foldlM (fun combos c => do
    return addCombo l.name (← chordCombo m l.name c) combos) combos

/-! ## Documents -/

/-- Draws layers, one after the other, behind the combinations found so far. -/
def drawLayers (m : Keymap) (combos : List Combo) :
    List Layer → Except Diagnostic (List LayerLabels × List Combo)
  | [] => .ok ([], combos)
  | l :: rest => do
    let labels ← labelLayer m l
    let combos' ← addChords m l combos
    let (others, combos'') ← drawLayers m combos' rest
    return (labels :: others, combos'')

/-- Draws a keymap. The name of the keyboard is required. -/
def build (m : Keymap) : Except Diagnostic Document := do
  let keyboard ← m.options.require .diagram "keyboard"
  let (layers, combos) ← drawLayers m [] m.layers
  return {
    keyboard := keyboard.value
    layout := m.options.getD .diagram "layout" ""
    layers := layers
    combos := combos }

/-! ## Writing -/

/-- A field that is left out when its text is empty. -/
def optionalField (name : String) (text : String → Yaml) (s : String) : List (String × Yaml) :=
  if s = "" then [] else [(name, text s)]

/-- A label; `text` says how its parts are written. -/
def labelYaml (text : String → Yaml) (l : KeyLabel) : Yaml :=
  .mapping (optionalField "tap" text l.tap ++ optionalField "hold" text l.hold)

/-- A part of a label in a layer. -/
def layerText (s : String) : Yaml :=
  if s = "<<" then .mergeSign else .text s

def comboYaml (c : Combo) : Yaml :=
  let position := fun (p : MatrixPos) => Yaml.flow [.number p.col, .number p.row]
  .mapping
    [("key_positions", .flow [.number c.firstKey, .number (c.firstKey + 1)]),
     ("matrix_positions", .flow [position c.left, position c.right]),
     ("key", labelYaml .text c.label),
     ("layers", .flow (c.layers.map .text))]

def layerYaml (l : LayerLabels) : String × Yaml :=
  (l.name, .sequence (l.rows.map fun row => .sequence (row.map (labelYaml layerText))))

def Document.yaml (d : Document) : Yaml :=
  .mapping
    [("layout", .mapping (("qmk_keyboard", .text d.keyboard)
        :: optionalField "qmk_layout" .text d.layout)),
     ("layers", .mapping (d.layers.map layerYaml)),
     ("combos", .sequence (d.combos.map comboYaml))]

def Document.render (d : Document) : List Char :=
  d.yaml.render

end Keyplan.Diagram
