import Keyplan.Description
import Keyplan.Diagnostic

/-!
A resolved layout. Three coordinate spaces meet here: physical cells as written, spacers included;
layout positions, which number the keys of a row and leave spacers out; and matrix positions, the
switches of the electrical key matrix. A layout is the rows of its physical cells, and every other
view is read off them.
-/

namespace Keyplan

/-- A cell of the layout block as written. -/
structure PhysicalPos where
  col : Nat
  row : Nat
  deriving DecidableEq, Repr

/-- A key of the layout block, spacers not counted. Layer rows are indexed by it. -/
structure LayoutPos where
  col : Nat
  row : Nat
  deriving DecidableEq, Repr

/-- A switch of the electrical key matrix. -/
structure MatrixPos where
  col : Nat
  row : Nat
  deriving DecidableEq, Repr

/-- A place in a grid as shown: the row first. -/
def gridText (row col : Int) : String :=
  s!"({row}, {col})"

def PhysicalPos.text (p : PhysicalPos) : String := gridText p.row p.col

def LayoutPos.text (p : LayoutPos) : String := gridText p.row p.col

def MatrixPos.text (p : MatrixPos) : String := gridText p.row p.col

/-- The largest row or column a matrix can have. -/
def maxCoordinate : Nat := 255

/-- A coordinate of the matrix; `what` is the axis it lies on. -/
def checkCoordinate (what : String) (n : Int) (span : Span) : Except Diagnostic Nat :=
  if 0 ≤ n ∧ n ≤ maxCoordinate then .ok n.toNat
  else .error
    { cause := .meaning .coordinateOutOfRange
      detail := s!"{what} {n} is not in 0..{maxCoordinate}"
      span := span }

/-- The matrix position with the given coordinates, the row checked first. -/
def MatrixPos.locate (col row : Int) (span : Span) : Except Diagnostic MatrixPos := do
  let r ← checkCoordinate "row" row span
  let c ← checkCoordinate "column" col span
  return ⟨c, r⟩

/-- What a physical cell holds: a spacer, or a key wired to a matrix column of its row. -/
inductive Slot where
  | space
  | key (column : Nat)
  deriving DecidableEq, Repr

def Slot.column? : Slot → Option Nat
  | space => none
  | key column => some column

structure Layout where
  rows : List (List Slot)
  deriving DecidableEq, Repr

namespace Layout

/-! ## Views -/

/-- The keys of a row: their physical columns and their matrix columns. -/
def rowKeys (row : List Slot) : List (Nat × Nat) :=
  row.zipIdx.filterMap fun (slot, col) => slot.column?.map fun column => (col, column)

/-- The width of the matrix, which is the number of cells of every row. -/
def width (l : Layout) : Nat :=
  (l.rows.head?.map List.length).getD 0

def height (l : Layout) : Nat :=
  l.rows.length

def keyCounts (l : Layout) : List Nat :=
  l.rows.map fun row => (rowKeys row).length

def keysInRow (l : Layout) (row : Nat) : Nat :=
  l.keyCounts.getD row 0

/-- All keys, row by row: their physical columns and their matrix columns. -/
def keys (l : Layout) : List (Nat × Nat) :=
  l.rows.flatMap rowKeys

def keyCount (l : Layout) : Nat :=
  l.keys.length

/-- The physical and the matrix position of the key at a layout position. -/
def keyAt? (l : Layout) (p : LayoutPos) : Option (PhysicalPos × MatrixPos) := do
  let row ← l.rows[p.row]?
  let (col, column) ← (rowKeys row)[p.col]?
  return (⟨col, p.row⟩, ⟨column, p.row⟩)

def matrixAt? (l : Layout) (p : LayoutPos) : Option MatrixPos :=
  (l.keyAt? p).map (·.2)

def layoutAt? (l : Layout) (m : MatrixPos) : Option LayoutPos := do
  let row ← l.rows[m.row]?
  let col ← (rowKeys row).findIdx? fun (_, column) => column == m.col
  return ⟨col, m.row⟩

def slotAt? (l : Layout) (p : PhysicalPos) : Option Slot := do
  let row ← l.rows[p.row]?
  row[p.col]?

def layoutOf? (l : Layout) (p : PhysicalPos) : Option LayoutPos := do
  let row ← l.rows[p.row]?
  let col ← (rowKeys row).findIdx? fun (col, _) => col == p.col
  return ⟨col, p.row⟩

/-- The number of a layout position when keys are numbered row by row. -/
def keyIndex (l : Layout) (col row : Int) : Int :=
  (Layout.keys ⟨l.rows.take row.toNat⟩).length + col

/-! ## Resolving a layout block -/

/-- A row under construction: its cells so far, and the matrix columns they claim with the places
of the claims. -/
structure RowClaims where
  slots : List Slot := []
  claims : List (Nat × Span) := []

namespace RowClaims

/-- The physical column of the next cell. -/
def next (r : RowClaims) : Nat :=
  r.slots.length

/-- A column that is claimed a second time. -/
def overlap (pos : MatrixPos) (span first : Span) : Diagnostic where
  cause := .meaning .overlappingKeys
  detail := s!"matrix position {pos.text} is claimed twice"
  span := span
  labels := [⟨first, "first claimed here"⟩]

def addKey (row : Nat) (column : Int) (span : Span) (r : RowClaims) :
    Except Diagnostic RowClaims := do
  let pos ← MatrixPos.locate column row span
  -- The cell has a column of its own, wherever its key is wired to.
  let _ ← checkCoordinate "column" r.next span
  match r.claims.find? (·.1 == pos.col) with
  | some (_, first) => throw (overlap pos span first)
  | none =>
    return { slots := r.slots ++ [.key pos.col], claims := r.claims ++ [(pos.col, span)] }

/-- Adds keys wired to the columns they stand in. -/
def addKeys (row : Nat) (span : Span) : Nat → RowClaims → Except Diagnostic RowClaims
  | 0, r => .ok r
  | n + 1, r => do
    let r' ← r.addKey row r.next span
    addKeys row span n r'

def addSpaces (span : Span) : Nat → RowClaims → Except Diagnostic RowClaims
  | 0, r => .ok r
  | n + 1, r => do
    let _ ← checkCoordinate "column" r.next span
    addSpaces span n { r with slots := r.slots ++ [.space] }

def zeroCount (item : LayoutItem) : Diagnostic where
  cause := .meaning .zeroCount
  detail := item.text
  span := item.span

def addItem (row : Nat) (r : RowClaims) (item : LayoutItem) : Except Diagnostic RowClaims :=
  match item.shape with
  | .keys count =>
    if count ≤ 0 then .error (zeroCount item) else addKeys row item.span count.toNat r
  | .spaces count =>
    if count ≤ 0 then .error (zeroCount item) else addSpaces item.span count.toNat r
  | .remap column => r.addKey row column item.span

end RowClaims

def resolveRow (row : Nat) (node : LayoutRow) : Except Diagnostic (List Slot) := do
  let _ ← checkCoordinate "row" row node.span
  let claims ← node.items.foldlM (RowClaims.addItem row) {}
  return claims.slots

/-- A row that is not as wide as the first one. -/
def widthMismatch (first : Nat × Span) (width : Nat) (span : Span) : Diagnostic where
  cause := .meaning .inconsistentWidth
  detail := s!"expected {first.1} columns, found {width}"
  span := span
  labels := [⟨first.2, s!"the first row is {first.1} columns wide"⟩]

/-- The cells of rows from row `row` on; `first` is the width and the place of the first row. -/
def resolveRows (row : Nat) (first : Option (Nat × Span)) :
    List LayoutRow → Except Diagnostic (List (List Slot))
  | [] => .ok []
  | node :: rest => do
    let slots ← resolveRow row node
    let first := first.getD (slots.length, node.span)
    if slots.length ≠ first.1 then
      throw (widthMismatch first slots.length node.span)
    let others ← resolveRows (row + 1) (some first) rest
    return slots :: others

/-- A key that is wired to a column the matrix does not have. -/
def remapFault? (width row : Nat) (item : LayoutItem) : Option Diagnostic :=
  match item.shape with
  | .remap column =>
    if column < width then none
    else some
      { cause := .meaning .remapOutOfMatrix
        detail := s!"column {column} of row {row}, the matrix is {width} columns wide"
        span := item.span }
  | _ => none

/-- The first key wired to a column the matrix does not have, which is known once the width is. -/
def remapFaults (width : Nat) (rows : List LayoutRow) : Option Diagnostic :=
  rows.zipIdx.findSome? fun (node, row) => node.items.findSome? (remapFault? width row)

def resolve (block : LayoutBlock) : Except Diagnostic Layout := do
  if block.rows.isEmpty then
    throw { cause := .meaning .emptyLayout, span := block.span }
  let layout : Layout := ⟨← resolveRows 0 none block.rows⟩
  match remapFaults layout.width block.rows with
  | some fault => throw fault
  | none => return layout

end Layout

end Keyplan
