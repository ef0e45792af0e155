import Keyplan.Firmware.Allocator
import Keyplan.Firmware.Binding

/-!
The firmware of a keymap: one action for each matrix position of each layer, with the slots of
chords in the rows below the physical matrix.
-/

namespace Keyplan.Firmware

/-- The actions of every layer, row by row, and the chords with their slots. -/
structure Table where
  width : Nat
  rows : Nat
  layerNames : List String
  layers : List (List (List Action))
  chords : OrderedMap ChordPair MatrixPos
  customEvent : String

namespace Table

def defaultCustomEvent : String := "()"

/-- Gives every chord of a layer a slot and puts its key there. -/
def placeChords (a : Allocator ChordPair) (chords : List PlacedChord) :
    Except Diagnostic (OrderedMap MatrixPos Key × Allocator ChordPair) :=
  chords.foldlM (fun (placed, a) c => do
    let (pos, a') ← a.allocate ⟨c.left, c.right⟩ c.chord.span
    return (placed.insert pos c.chord.key, a')) ([], a)

def placeKeys (placed : OrderedMap MatrixPos Key) (keys : List PlacedKey) :
    OrderedMap MatrixPos Key :=
  keys.foldl (fun placed k => placed.insert k.matrix k.key) placed

def bindAt (b : Binder) (entry : MatrixPos × Key) : Except Diagnostic (MatrixPos × Action) := do
  let action ← b.bind entry.2
  return (entry.1, action)

/-- The actions of a layer by position, and the slots after it. -/
def bindLayer (b : Binder) (a : Allocator ChordPair) (l : Layer) :
    Except Diagnostic (OrderedMap MatrixPos Action × Allocator ChordPair) := do
  let (chordKeys, a') ← placeChords a l.chords
  let placed := placeKeys chordKeys l.keys
  -- Chords are placed first and bound last: the fault of a key comes before that of a chord.
  let keys ← (placed.filter fun e => !a'.isExtra e.1.row).mapM (bindAt b)
  let chords ← (placed.filter fun e => a'.isExtra e.1.row).mapM (bindAt b)
  return (keys ++ chords, a')

/-- The actions of layers, one after the other, and the slots after all of them. -/
def bindLayers (b : Binder) (a : Allocator ChordPair) :
    List Layer → Except Diagnostic (List (OrderedMap MatrixPos Action) × Allocator ChordPair)
  | [] => .ok ([], a)
  | l :: rest => do
    let (bound, a') ← bindLayer b a l
    let (others, a'') ← bindLayers b a' rest
    return (bound :: others, a'')

/-- A grid of actions; a position without one does nothing. -/
def grid (rows width : Nat) (bound : OrderedMap MatrixPos Action) : List (List Action) :=
  (List.range rows).map fun row =>
    let inRow : OrderedMap MatrixPos Action := bound.filter fun e => e.1.row == row
    (List.range width).map fun col => (inRow.get? ⟨col, row⟩).getD .noOp

/-- Builds the firmware of a keymap. Layers are taken in the order they were declared, so the same
keymap always has the same table. -/
def build (m : Keymap) : Except Diagnostic Table := do
  let binder ← Binder.ofKeymap m
  let (bound, a) ← bindLayers binder
    { width := m.layout.width, height := m.layout.height } m.layers
  let rows := m.layout.height + a.extraRows
  return {
    width := m.layout.width
    rows := rows
    layerNames := m.layerNames
    layers := bound.map (grid rows m.layout.width)
    chords := a.slots
    customEvent := m.options.getD .firmware "custom_event" defaultCustomEvent }

def action? (t : Table) (layer row col : Int) : Option Action :=
  if layer < 0 ∨ row < 0 ∨ col < 0 then none
  else do
    let rows ← t.layers[layer.toNat]?
    let cells ← rows[row.toNat]?
    cells[col.toNat]?

/-! ## Writing -/

def chordLine (entry : ChordPair × MatrixPos) : String :=
  "        [" ++ entry.1.left.text ++ ", " ++ entry.1.right.text ++ "] => ["
    ++ entry.2.text ++ "],\n"

def rowLine (row : List Action) : String :=
  "    [" ++ String.join (row.map fun a => a.render ++ ", ") ++ "],\n"

def layerLines (rows : List (List Action)) : String :=
  "  [\n" ++ String.join (rows.map rowLine) ++ "  ],\n"

def render (t : Table) : String :=
  "pub fn chorder() -> super::chord::Chorder \x7b\n    dilemma_macros::chords!(\n"
    ++ String.join (t.chords.map chordLine)
    ++ "    )\n\x7d\n"
    ++ s!"pub static LAYERS: ::keyberon::layout::Layers<{t.width}, {t.rows}, {t.layers.length}, "
    ++ t.customEvent ++ "> = [\n"
    ++ String.join (t.layers.map layerLines)
    ++ "];\n"

end Table

end Keyplan.Firmware
