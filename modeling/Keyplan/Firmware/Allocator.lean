import Keyplan.Layout
import Keyplan.OrderedMap

/-!
Slots for chords. A matrix of a given size is extended downwards, row by row; every chord gets one
slot of the extension the first time it is asked for, and keeps it.
-/

namespace Keyplan.Firmware

/-- Slots handed out so far. The extension has `extraRows` rows, and `extraCols` slots of the last
one are taken, none when that row is full. -/
structure Allocator (κ : Type) where
  width : Int
  height : Int
  extraRows : Nat := 0
  extraCols : Nat := 0
  slots : OrderedMap κ MatrixPos := []

namespace Allocator

variable {κ : Type}

/-- The number of rows of the extended matrix. -/
def rows (a : Allocator κ) : Int :=
  a.height + a.extraRows

/-- Whether a row lies in the extension. -/
def isExtra (a : Allocator κ) (row : Int) : Bool :=
  a.height ≤ row

/-- Hands out the slot of `k`; `span` locates the fault when the matrix cannot grow any more. -/
def allocate [DecidableEq κ] (a : Allocator κ) (k : κ) (span : Span) :
    Except Diagnostic (MatrixPos × Allocator κ) :=
  match a.slots.get? k with
  | some pos => .ok (pos, a)
  | none => do
    -- The last row is full, or there is none yet.
    let extraRows := if a.extraCols = 0 then a.extraRows + 1 else a.extraRows
    let pos ← MatrixPos.locate a.extraCols (a.height + extraRows - 1) span
    let extraCols := if a.width ≤ a.extraCols + 1 then 0 else a.extraCols + 1
    return (pos, { a with
      extraRows := extraRows, extraCols := extraCols, slots := a.slots ++ [(k, pos)] })

end Allocator

/-- The two matrix positions a chord sits between. -/
structure ChordPair where
  left : MatrixPos
  right : MatrixPos
  deriving DecidableEq, Repr

end Keyplan.Firmware
