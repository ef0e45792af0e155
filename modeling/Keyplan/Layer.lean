import Keyplan.Layout

/-!
Resolved layers: every key of a layer on the key of the layout under it, and every chord between
the two keys that press it.
-/

namespace Keyplan

/-- A key of a layer and the three positions of the layout key under it. -/
structure PlacedKey where
  key : Key
  layout : LayoutPos
  physical : PhysicalPos
  matrix : MatrixPos
  deriving DecidableEq, Repr

/-- A chord, the matrix positions of its two neighbours, and the layout position of the left one. -/
structure PlacedChord where
  chord : Chord
  left : MatrixPos
  right : MatrixPos
  leftLayout : LayoutPos
  deriving DecidableEq, Repr

/-- A layer: its keys and its chords in the order they were written, and its number of rows. -/
structure Layer where
  name : String
  rowCount : Nat
  keys : List PlacedKey
  chords : List PlacedChord
  deriving DecidableEq, Repr

namespace Layer

/-- A key that has no layout key under it. -/
def impossibleKey (layout : Layout) (p : LayoutPos) (span : Span) : Diagnostic where
  cause := .meaning .impossibleKeyLocation
  detail := s!"row {p.row + 1} of the layout has only {layout.keysInRow p.row} keys"
  span := span

/-- The physical and matrix position under a layer key at a layout position. -/
def keyUnder (layout : Layout) (p : LayoutPos) (span : Span) :
    Except Diagnostic (PhysicalPos × MatrixPos) :=
  match layout.keyAt? p with
  | some found => .ok found
  | none => .error (impossibleKey layout p span)

/-- A chord without a key on each side. -/
def badChord (row : LayerRow) (previous next : Option RowItem) (c : Chord) : Diagnostic where
  cause := .meaning .badChordPositions
  detail := c.text
  span := c.span
  labels :=
    [match previous with
      | some item => ⟨item.span, "previous item"⟩
      | none => ⟨row.span.first, "the row starts here"⟩,
     match next with
      | some item => ⟨item.span, "next item"⟩
      | none => ⟨row.semicolon, "the row ends here"⟩]
  help := "write the chord between the two keys that trigger it, as in `a >x< b`"

/-- Places a chord behind `col` keys of row `row`. -/
def placeChord (layout : Layout) (node : LayerRow) (row col : Nat)
    (previous next : Option RowItem) (c : Chord) : Except Diagnostic PlacedChord :=
  match previous, next with
  | some (.key k), some (.key k') => do
    let leftLayout : LayoutPos := ⟨col - 1, row⟩
    let (_, left) ← keyUnder layout leftLayout k.span
    let (_, right) ← keyUnder layout ⟨col, row⟩ k'.span
    return { chord := c, left := left, right := right, leftLayout := leftLayout }
  | _, _ => .error (badChord node previous next c)

/-- Places the items of a row behind `col` keys and the item `previous`. -/
def placeItems (layout : Layout) (node : LayerRow) (row : Nat) (previous : Option RowItem)
    (col : Nat) : List RowItem → Except Diagnostic (List PlacedKey × List PlacedChord)
  | [] => .ok ([], [])
  | .key k :: rest => do
    let (physical, matrix) ← keyUnder layout ⟨col, row⟩ k.span
    let (keys, chords) ← placeItems layout node row (some (.key k)) (col + 1) rest
    return ({ key := k, layout := ⟨col, row⟩, physical := physical, matrix := matrix } :: keys,
      chords)
  | .chord c :: rest => do
    -- A chord stands between two keys and takes no column.
    let placed ← placeChord layout node row col previous rest.head? c
    let (keys, chords) ← placeItems layout node row (some (.chord c)) col rest
    return (keys, placed :: chords)

/-- A row of a layer that the layout does not have. -/
def extraRow (layout : Layout) (name : String) (row : Nat) (span : Span) : Diagnostic where
  cause := .meaning .impossibleKeyLocation
  detail := s!"layer {name} has row {row + 1} but the layout has only {layout.height} rows"
  span := span

/-- Places the rows of layer `name` from row `row` on. -/
def placeRows (layout : Layout) (name : String) (row : Nat) :
    List LayerRow → Except Diagnostic (List PlacedKey × List PlacedChord)
  | [] => .ok ([], [])
  | node :: rest => do
    if layout.height ≤ row then
      throw (extraRow layout name row node.span)
    let (keys, chords) ← placeItems layout node row none 0 node.items
    let (keys', chords') ← placeRows layout name (row + 1) rest
    return (keys ++ keys', chords ++ chords')

def resolve (layout : Layout) (block : LayerBlock) : Except Diagnostic Layer := do
  let (keys, chords) ← placeRows layout block.name 0 block.rows
  return { name := block.name, rowCount := block.rows.length, keys := keys, chords := chords }

def duplicateLayer (first second : LayerBlock) : Diagnostic where
  cause := .meaning .duplicateLayer
  detail := second.name
  span := second.nameSpan
  labels := [⟨first.nameSpan, "first declared here"⟩]

/-- Checks that no layer behind the layers `seen` repeats a name. -/
def checkNames (seen : List LayerBlock) : List LayerBlock → Except Diagnostic Unit
  | [] => .ok ()
  | b :: rest =>
    match seen.find? (·.name == b.name) with
    | some first => .error (duplicateLayer first b)
    | none => checkNames (seen ++ [b]) rest

/-- Resolves layer blocks; names are checked before anything else. -/
def resolveAll (layout : Layout) (blocks : List LayerBlock) : Except Diagnostic (List Layer) := do
  checkNames [] blocks
  blocks.mapM (resolve layout)

end Layer

end Keyplan
