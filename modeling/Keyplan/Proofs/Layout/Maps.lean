import Keyplan.Proofs.Layout.Coordinates
import Keyplan.Proofs.OrderedMap

/-!
# Layout maps — a layout recorded cell by cell

A layout can be kept as four maps between its coordinate spaces, with the number of keys of each row.
A recorder goes through the block with two running columns and a map of the switches claimed so far,
and writes each map on its own. Behind every cell the maps show the views of the grid that stands so
far. Hence recording fails exactly where resolving does and in the same way, and the maps that it
leaves show the views of the resolved layout.
-/

namespace Keyplan

open Outcome

/-- The content of a recorded cell: a spacer, or a key wired to a switch. -/
inductive KeyAt where
  | space
  | located (pos : MatrixPos)
  deriving DecidableEq, Repr

def KeyAt.matrix? : KeyAt → Option MatrixPos
  | space => none
  | located pos => some pos

/-- What a slot of row `row` holds. -/
def KeyAt.ofSlot (row : Nat) : Slot → KeyAt
  | .space => .space
  | .key column => .located ⟨column, row⟩

structure LayoutMaps where
  physToMatrix : OrderedMap PhysicalPos KeyAt := []
  layoutToMatrix : OrderedMap LayoutPos KeyAt := []
  layoutToPhys : OrderedMap LayoutPos PhysicalPos := []
  physToLayout : OrderedMap PhysicalPos LayoutPos := []
  /-- The number of keys of each row. -/
  rowKeys : List Nat := []
  width : Nat := 0
  height : Nat := 0
  deriving DecidableEq, Repr

namespace LayoutMaps

/-! ## 1. Reading the maps -/

def matrixAt? (m : LayoutMaps) (p : LayoutPos) : Option MatrixPos :=
  (m.layoutToMatrix.get? p).bind KeyAt.matrix?

/-- The layout position of a switch, by going through the keys in the order `order`. -/
def layoutAt? (order : List (LayoutPos × KeyAt)) (s : MatrixPos) : Option LayoutPos :=
  (order.find? fun entry => decide (entry.2.matrix? = some s)).map (·.1)

/-! ## 2. Recording a block -/

def putKey (phys : PhysicalPos) (lay : LayoutPos) (pos : MatrixPos) (m : LayoutMaps) :
    LayoutMaps :=
  { m with
    physToMatrix := m.physToMatrix.insert phys (.located pos)
    layoutToMatrix := m.layoutToMatrix.insert lay (.located pos)
    layoutToPhys := m.layoutToPhys.insert lay phys
    physToLayout := m.physToLayout.insert phys lay }

def putSpace (phys : PhysicalPos) (m : LayoutMaps) : LayoutMaps :=
  { m with physToMatrix := m.physToMatrix.insert phys .space }

/-- A layout being recorded: its maps, the places where switches were claimed, and the next
physical and layout column of the row. -/
structure Recorder where
  maps : LayoutMaps := {}
  claims : OrderedMap MatrixPos Span := []
  physCol : Nat := 0
  layoutCol : Nat := 0

namespace Recorder

/-- Claims a switch for a key. -/
def claim (phys : PhysicalPos) (lay : LayoutPos) (column : Int) (span : Span) (r : Recorder) :
    Except Diagnostic Recorder := do
  let pos ← MatrixPos.locate column phys.row span
  let _ ← checkCoordinate "column" phys.col span
  match r.claims.get? pos with
  | some first => throw (Layout.RowClaims.overlap pos span first)
  | none =>
    return { r with
      maps := r.maps.putKey phys lay pos
      claims := r.claims.insert pos span }

def addKey (row : Nat) (column : Int) (span : Span) (r : Recorder) :
    Except Diagnostic Recorder := do
  let r ← r.claim ⟨r.physCol, row⟩ ⟨r.layoutCol, row⟩ column span
  return { r with physCol := r.physCol + 1, layoutCol := r.layoutCol + 1 }

def addKeys (row : Nat) (span : Span) : Nat → Recorder → Except Diagnostic Recorder
  | 0, r => .ok r
  | n + 1, r => do
    let r' ← r.addKey row r.physCol span
    addKeys row span n r'

/-- Spacers have a physical column and no layout column. -/
def addSpaces (row : Nat) (span : Span) : Nat → Recorder → Except Diagnostic Recorder
  | 0, r => .ok r
  | n + 1, r => do
    let _ ← checkCoordinate "column" r.physCol span
    addSpaces row span n
      { r with maps := r.maps.putSpace ⟨r.physCol, row⟩, physCol := r.physCol + 1 }

def addItem (row : Nat) (r : Recorder) (item : LayoutItem) : Except Diagnostic Recorder :=
  match item.shape with
  | .keys count =>
    if count ≤ 0 then .error (Layout.RowClaims.zeroCount item)
    else addKeys row item.span count.toNat r
  | .spaces count =>
    if count ≤ 0 then .error (Layout.RowClaims.zeroCount item)
    else addSpaces row item.span count.toNat r
  | .remap column => r.addKey row column item.span

/-- Notes the width and the number of keys of a row. The first row, which stands at `first`, sets
the width for the others. -/
def endRow (first : Span) (row : Nat) (span : Span) (r : Recorder) : Except Diagnostic Recorder :=
  let width := if row = 0 then r.physCol else r.maps.width
  if r.physCol ≠ width then
    .error (Layout.widthMismatch (width, first) r.physCol span)
  else
    .ok { r with maps := { r.maps with
      width := width
      rowKeys := r.maps.rowKeys ++ [r.layoutCol] } }

def addRow (first : Span) (row : Nat) (node : LayoutRow) (r : Recorder) :
    Except Diagnostic Recorder := do
  let _ ← checkCoordinate "row" row node.span
  let r ← node.items.foldlM (addItem row) { r with physCol := 0, layoutCol := 0 }
  r.endRow first row node.span

/-- Records rows from row `row` on. -/
def addRows (first : Span) (row : Nat) : List LayoutRow → Recorder → Except Diagnostic Recorder
  | [], r => .ok r
  | node :: rest, r => do
    let r ← r.addRow first row node
    addRows first (row + 1) rest r

end Recorder

def resolve (block : LayoutBlock) : Except Diagnostic LayoutMaps :=
  match block.rows with
  | [] => .error { cause := .meaning .emptyLayout, span := block.span }
  | head :: rest => do
    let r ← Recorder.addRows head.span 0 (head :: rest) {}
    match Layout.remapFaults r.maps.width (head :: rest) with
    | some fault => throw fault
    | none => return { r.maps with height := (head :: rest).length }

/-! ## 3. Maps that show a grid -/

open Layout (slotAt?_concat keyAt?_concat_key keyAt?_concat_space layoutOf?_concat_key
  layoutOf?_concat_space slotAt?_concat_nil keyAt?_concat_nil layoutOf?_concat_nil)

/-- The four maps give what the views of a grid give. -/
structure ShowsCells (l : Layout) (m : LayoutMaps) : Prop where
  physToMatrix : ∀ q, m.physToMatrix.get? q = (l.slotAt? q).map (KeyAt.ofSlot q.row)
  layoutToMatrix : ∀ p, m.layoutToMatrix.get? p = (l.keyAt? p).map fun key => .located key.2
  layoutToPhys : ∀ p, m.layoutToPhys.get? p = l.physicalAt? p
  physToLayout : ∀ q, m.physToLayout.get? q = l.layoutOf? q
  nodup : (OrderedMap.keys m.layoutToMatrix).Nodup

/-- The maps of a whole layout also have its counts and its dimensions. -/
structure Shows (l : Layout) (m : LayoutMaps) : Prop extends ShowsCells l m where
  rowKeys : m.rowKeys = l.keyCounts
  width : m.width = l.width
  height : m.height = l.height

namespace ShowsCells

variable {rows : List (List Slot)} {slots : List Slot} {m : LayoutMaps}

theorem empty : ShowsCells ⟨[]⟩ {} where
  physToMatrix := fun _ => rfl
  layoutToMatrix := fun _ => rfl
  layoutToPhys := fun _ => rfl
  physToLayout := fun _ => rfl
  nodup := List.nodup_nil

/-- A key at the end of a row changes each view at one place, and each map at the same place. -/
theorem putKey (h : m.ShowsCells ⟨rows ++ [slots]⟩) (column : Nat) :
    (m.putKey ⟨slots.length, rows.length⟩ ⟨(Layout.rowKeys slots).length, rows.length⟩
      ⟨column, rows.length⟩).ShowsCells ⟨rows ++ [slots ++ [.key column]]⟩ where
  physToMatrix := by
    intro q
    rw [LayoutMaps.putKey, OrderedMap.get?_insert, slotAt?_concat, h.physToMatrix]
    by_cases hq : ⟨slots.length, rows.length⟩ = q
    · subst hq
      rw [if_pos rfl, if_pos rfl]
      rfl
    · rw [if_neg hq, if_neg hq]
  layoutToMatrix := by
    intro p
    rw [LayoutMaps.putKey, OrderedMap.get?_insert, keyAt?_concat_key, h.layoutToMatrix]
    split <;> rfl
  layoutToPhys := by
    intro p
    rw [LayoutMaps.putKey, OrderedMap.get?_insert, Layout.physicalAt?, keyAt?_concat_key,
      h.layoutToPhys]
    split <;> rfl
  physToLayout := by
    intro q
    rw [LayoutMaps.putKey, OrderedMap.get?_insert, layoutOf?_concat_key, h.physToLayout]
  nodup := OrderedMap.nodup_insert h.nodup

theorem putSpace (h : m.ShowsCells ⟨rows ++ [slots]⟩) :
    (m.putSpace ⟨slots.length, rows.length⟩).ShowsCells ⟨rows ++ [slots ++ [.space]]⟩ where
  physToMatrix := by
    intro q
    rw [LayoutMaps.putSpace, OrderedMap.get?_insert, slotAt?_concat, h.physToMatrix]
    split <;> rfl
  layoutToMatrix := by
    intro p
    rw [keyAt?_concat_space]
    exact h.layoutToMatrix p
  layoutToPhys := by
    intro p
    rw [Layout.physicalAt?, keyAt?_concat_space]
    exact h.layoutToPhys p
  physToLayout := by
    intro q
    rw [layoutOf?_concat_space]
    exact h.physToLayout q
  nodup := h.nodup

theorem newRow (h : m.ShowsCells ⟨rows⟩) : m.ShowsCells ⟨rows ++ [[]]⟩ where
  physToMatrix := by
    intro q
    rw [slotAt?_concat_nil]
    exact h.physToMatrix q
  layoutToMatrix := by
    intro p
    rw [keyAt?_concat_nil]
    exact h.layoutToMatrix p
  layoutToPhys := by
    intro p
    rw [Layout.physicalAt?, keyAt?_concat_nil]
    exact h.layoutToPhys p
  physToLayout := by
    intro q
    rw [layoutOf?_concat_nil]
    exact h.physToLayout q
  nodup := h.nodup

end ShowsCells

/-! ## 4. What a step of the recorder does -/

open Layout (RowClaims)

namespace Recorder

/-- The recorder stands behind the rows `rows`. -/
structure Behind (rows : List (List Slot)) (r : Recorder) : Prop where
  shows : r.maps.ShowsCells ⟨rows⟩
  rowKeys : r.maps.rowKeys = Layout.keyCounts ⟨rows⟩
  width : r.maps.width = Layout.width ⟨rows⟩
  /-- No switch of a later row was claimed. -/
  unclaimed : ∀ pos : MatrixPos, rows.length ≤ pos.row → r.claims.get? pos = none

/-- The recorder stands in the row behind the rows `rows`, and `c` is what there is of this row. -/
structure InRow (rows : List (List Slot)) (c : RowClaims) (r : Recorder) : Prop where
  shows : r.maps.ShowsCells ⟨rows ++ [c.slots]⟩
  rowKeys : r.maps.rowKeys = Layout.keyCounts ⟨rows⟩
  width : r.maps.width = Layout.width ⟨rows⟩
  physCol : r.physCol = c.slots.length
  layoutCol : r.layoutCol = (Layout.rowKeys c.slots).length
  /-- The claims in this row are those of `c`. -/
  claimed : ∀ column, r.claims.get? ⟨column, rows.length⟩ =
    (c.claims.find? (·.1 == column)).map (·.2)
  unclaimed : ∀ pos : MatrixPos, rows.length < pos.row → r.claims.get? pos = none

variable {rows : List (List Slot)} {c : RowClaims} {r : Recorder}

/-- A key on a switch that was free is the last one of its row. -/
theorem InRow.key (h : r.InRow rows c) {col : Nat}
    (hfree : c.claims.find? (·.1 == col) = none) (span : Span) :
    InRow rows { slots := c.slots ++ [.key col], claims := c.claims ++ [(col, span)] }
      { maps := r.maps.putKey ⟨r.physCol, rows.length⟩ ⟨r.layoutCol, rows.length⟩
          ⟨col, rows.length⟩
        claims := r.claims.insert ⟨col, rows.length⟩ span
        physCol := r.physCol + 1
        layoutCol := r.layoutCol + 1 } where
  shows := by
    rw [h.physCol, h.layoutCol]
    exact h.shows.putKey col
  rowKeys := h.rowKeys
  width := h.width
  physCol := by
    rw [h.physCol, List.length_append]
    rfl
  layoutCol := by
    rw [h.layoutCol, Layout.rowKeys_concat_key, List.length_append]
    rfl
  claimed := by
    intro column
    rw [OrderedMap.get?_insert, h.claimed, List.find?_append]
    by_cases hcol : col = column
    · subst hcol
      rw [if_pos rfl, hfree]
      simp
    · rw [if_neg (by simpa using hcol)]
      simp [hcol]
  unclaimed := by
    intro pos hpos
    have hne : (⟨col, rows.length⟩ : MatrixPos) ≠ pos := by
      rintro rfl
      exact Nat.lt_irrefl _ hpos
    rw [OrderedMap.get?_insert, if_neg hne]
    exact h.unclaimed pos hpos

theorem InRow.space (h : r.InRow rows c) :
    InRow rows { c with slots := c.slots ++ [.space] }
      { r with
        maps := r.maps.putSpace ⟨r.physCol, rows.length⟩
        physCol := r.physCol + 1 } where
  shows := by
    rw [h.physCol]
    exact h.shows.putSpace
  rowKeys := h.rowKeys
  width := h.width
  physCol := by
    rw [h.physCol, List.length_append]
    rfl
  layoutCol := by
    rw [Layout.rowKeys_concat_space]
    exact h.layoutCol
  claimed := h.claimed
  unclaimed := h.unclaimed

theorem addKey_pairs (h : r.InRow rows c) (column : Int) (span : Span) :
    Pairs (InRow rows) (c.addKey rows.length column span) (r.addKey rows.length column span) := by
  unfold RowClaims.addKey addKey claim
  rw [bind_assoc, RowClaims.next, ← h.physCol]
  cases hpos : MatrixPos.locate column rows.length span with
  | error d => exact .error d
  | ok pos =>
    obtain ⟨col, row⟩ := pos
    obtain rfl : rows.length = row := by exact_mod_cast (Layout.locate_eq_ok_iff.mp hpos).2.1
    rw [ok_bind, ok_bind, bind_assoc]
    refine (Pairs.refl _).bind fun _ _ _ => ?_
    -- The switch was claimed exactly when a key of this row was wired to the column.
    have hclaimed := h.claimed col
    cases hfind : c.claims.find? (·.1 == col) with
    | some claim =>
      rw [hfind] at hclaimed
      simp only [hclaimed]
      exact .error _
    | none =>
      rw [hfind] at hclaimed
      simp only [hclaimed]
      exact .ok (h.key hfind span)

theorem addKeys_pairs (span : Span) (n : Nat) (h : r.InRow rows c) :
    Pairs (InRow rows) (c.addKeys rows.length span n) (r.addKeys rows.length span n) := by
  induction n generalizing c r with
  | zero => exact .ok h
  | succ n ih =>
    rw [RowClaims.addKeys, addKeys, h.physCol]
    refine (addKey_pairs h _ span).bind fun c' r' h' => ?_
    exact ih h'

theorem addSpaces_pairs (span : Span) (n : Nat) (h : r.InRow rows c) :
    Pairs (InRow rows) (c.addSpaces span n) (r.addSpaces rows.length span n) := by
  induction n generalizing c r with
  | zero => exact .ok h
  | succ n ih =>
    rw [RowClaims.addSpaces, addSpaces, RowClaims.next, ← h.physCol]
    refine (Pairs.refl _).bind fun _ _ _ => ?_
    exact ih h.space

/-- Behind each item the recorder shows what there is of its row. -/
theorem addItem_pairs (h : r.InRow rows c) (item : LayoutItem) :
    Pairs (InRow rows) (c.addItem rows.length item) (r.addItem rows.length item) := by
  unfold RowClaims.addItem addItem
  cases item.shape with
  | keys count => exact (addKeys_pairs item.span count.toNat h).checked (count ≤ 0) _
  | spaces count => exact (addSpaces_pairs item.span count.toNat h).checked (count ≤ 0) _
  | remap column => exact addKey_pairs h column item.span

/-! ## 5. What a run of the recorder does -/

theorem Behind.startRow (h : r.Behind rows) :
    InRow rows {} { r with physCol := 0, layoutCol := 0 } where
  shows := h.shows.newRow
  rowKeys := h.rowKeys
  width := h.width
  physCol := rfl
  layoutCol := rfl
  claimed := fun _ => h.unclaimed _ (Nat.le_refl _)
  unclaimed := fun pos hpos => h.unclaimed pos (Nat.le_of_lt hpos)

/-- A row that is as wide as the first one joins the rows. -/
theorem InRow.endRow (h : r.InRow rows c) (first span : Span)
    (hwidth : c.slots.length = if rows.length = 0 then c.slots.length else r.maps.width) :
    ∃ r', r.endRow first rows.length span = .ok r' ∧ r'.Behind (rows ++ [c.slots]) := by
  unfold Recorder.endRow
  rw [h.physCol, if_neg (not_not_intro hwidth)]
  refine ⟨_, rfl, { h.shows with }, ?_, ?_, ?_⟩
  · rw [h.rowKeys, h.layoutCol, Layout.keyCounts, Layout.keyCounts, List.map_append]
    rfl
  · rw [← hwidth]
    by_cases hrows : rows = []
    · rw [hrows]
      rfl
    · obtain ⟨slots, rest, rfl⟩ := List.exists_cons_of_ne_nil hrows
      rw [if_neg (by simp), h.width] at hwidth
      exact hwidth
  · intro pos hpos
    rw [List.length_append, List.length_singleton] at hpos
    exact h.unclaimed pos hpos

/-- The width of the first of the rows `rows` and its place, as soon as there is one. -/
def widthOf (rows : List (List Slot)) (first : Span) : Option (Nat × Span) :=
  rows.head?.map fun slots => (slots.length, first)

theorem getD_widthOf {first span : Span} (hfirst : rows = [] → span = first) (n : Nat) :
    (widthOf rows first).getD (n, span) =
      (if rows.length = 0 then n else Layout.width ⟨rows⟩, first) := by
  cases rows with
  | nil => rw [hfirst rfl]; rfl
  | cons slots rest => rfl

theorem widthOf_concat (rows : List (List Slot)) (slots : List Slot) (first : Span) :
    widthOf (rows ++ [slots]) first =
      some (if rows.length = 0 then slots.length else Layout.width ⟨rows⟩, first) := by
  cases rows <;> rfl

/-- Behind each row the recorder shows the rows so far. -/
theorem addRows_pairs (first : Span) (nodes : List LayoutRow) (h : r.Behind rows)
    (hfirst : rows = [] → ∀ node ∈ nodes.head?, node.span = first) :
    Pairs (fun more r => r.Behind (rows ++ more) ∧ more.length = nodes.length)
      (Layout.resolveRows rows.length (widthOf rows first) nodes)
      (addRows first rows.length nodes r) := by
  -- On the rows to come; those that are done are carried along.
  induction nodes generalizing rows r with
  | nil =>
    refine .ok ⟨?_, rfl⟩
    rw [List.append_nil]
    exact h
  | cons node nodes ih =>
    rw [Layout.resolveRows, Layout.resolveRow, addRows, addRow]
    simp only [bind_assoc]
    refine (Pairs.refl _).bind fun _ _ _ => ?_
    have hitems := Pairs.foldlM (fun _ _ item h => addItem_pairs h item) node.items h.startRow
    refine hitems.bind fun c r₁ hc => ?_
    -- Both compare the row with the same width, which is its own if it is the first one.
    rw [pure_bind, getD_widthOf fun hrows => hfirst hrows node rfl]
    by_cases hwidth : c.slots.length =
        if rows.length = 0 then c.slots.length else Layout.width ⟨rows⟩
    · rw [if_neg (not_not_intro hwidth)]
      rw [← hc.width] at hwidth
      obtain ⟨r₂, hend, hbehind⟩ := hc.endRow first node.span hwidth
      rw [hend, ok_bind, ← widthOf_concat]
      have hrest := ih hbehind (by simp)
      rw [List.length_append, List.length_singleton] at hrest
      rw [← bind_pure (addRows first (rows.length + 1) nodes r₂)]
      refine hrest.bind fun others r₃ hothers => ?_
      obtain ⟨hmore, hlen⟩ := hothers
      rw [List.append_assoc] at hmore
      exact .ok ⟨hmore, congrArg (· + 1) hlen⟩
    · rw [if_pos hwidth]
      unfold Recorder.endRow
      rw [hc.physCol, hc.width, if_pos hwidth]
      exact .error _

end Recorder

/-- A block is recorded exactly when it is resolved, failures are the same, and the maps show the
resolved layout. -/
theorem resolve_pairs (block : LayoutBlock) :
    Pairs Shows (Layout.resolve block) (resolve block) := by
  unfold Layout.resolve resolve
  cases hrows : block.rows with
  | nil => exact .error _
  | cons head rest =>
    have hempty : Recorder.Behind [] {} := ⟨.empty, rfl, rfl, fun _ _ => rfl⟩
    have hrun := Recorder.addRows_pairs head.span (head :: rest) hempty fun _ node hnode => by
      rw [← Option.some.inj hnode]
    refine hrun.bind fun rows r hr => ?_
    rw [List.nil_append] at hr
    obtain ⟨hr, hlen⟩ := hr
    dsimp only
    rw [hr.width]
    cases hfaults : Layout.remapFaults (Layout.width ⟨rows⟩) (head :: rest) with
    | some fault => exact .error _
    | none => exact .ok ⟨{ hr.shows with }, hr.rowKeys, rfl, hlen.symm⟩

/-! ## 6. Reading the maps of a layout -/

namespace Shows

variable {l : Layout} {m : LayoutMaps} {p : LayoutPos} {q : PhysicalPos} {s : MatrixPos}

theorem layoutToMatrix_eq_some_iff (h : m.Shows l) {k : KeyAt} :
    m.layoutToMatrix.get? p = some k ↔ ∃ q s, l.keyAt? p = some (q, s) ∧ k = .located s := by
  rw [h.layoutToMatrix, Option.map_eq_some_iff, Prod.exists]
  simp only [eq_comm]

theorem physToMatrix_eq_located_iff (h : m.Shows l) :
    m.physToMatrix.get? q = some (.located s) ↔ ∃ p, l.keyAt? p = some (q, s) := by
  obtain ⟨col, row⟩ := s
  rw [h.physToMatrix, Layout.exists_keyAt?_iff]
  cases Layout.slotAt? l q with
  | none => simp
  | some slot => cases slot <;> simp [KeyAt.ofSlot, eq_comm]

theorem matrixAt?_eq (h : m.Shows l) (p : LayoutPos) : m.matrixAt? p = l.matrixAt? p := by
  rw [matrixAt?, h.layoutToMatrix, Layout.matrixAt?]
  cases l.keyAt? p <;> rfl

end Shows

end LayoutMaps

end Keyplan
