import Keyplan.Proofs.Grammar.Soundness
import Keyplan.Proofs.Layout.Resolution
import Mathlib.Algebra.GroupWithZero.Nat

/-!
# Acceptance — which layout blocks can be resolved

The items of a row stand for cells, and resolving a row gives exactly these. A row is refused when
its cells are too many, or when they claim a column twice or one that no matrix has. Together with
the checks on whole blocks this leaves the blocks that fit a matrix.
-/

namespace Keyplan

/-! ## 1. What a layout block asks for -/

namespace LayoutItem.Shape

/-- The number of physical cells. -/
def width : Shape → Nat
  | keys count => count.toNat
  | spaces count => count.toNat
  | remap _ => 1

def keyCount : Shape → Nat
  | keys count => count.toNat
  | spaces _ => 0
  | remap _ => 1

/-- The matrix columns that are claimed from physical column `col` on. -/
def claims (col : Nat) : Shape → List Nat
  | keys count => List.range' col count.toNat
  | spaces _ => []
  | remap column => [column.toNat]

/-- Counts are at least one. -/
def Counted : Shape → Prop
  | keys count => 1 ≤ count
  | spaces count => 1 ≤ count
  | remap _ => True

end LayoutItem.Shape

namespace LayoutRow

/-- The sum of the counts of keys and of spacers, and the number of remapped keys. -/
def width (r : LayoutRow) : Nat :=
  (r.items.map (·.shape.width)).sum

/-- The sum of the counts of keys, and the number of remapped keys. -/
def keyCount (r : LayoutRow) : Nat :=
  (r.items.map (·.shape.keyCount)).sum

def claimsFrom (col : Nat) : List LayoutItem → List Nat
  | [] => []
  | item :: rest => item.shape.claims col ++ claimsFrom (col + item.shape.width) rest

/-- The matrix columns that a row claims: the physical columns of its plain keys, and the columns
that the others are remapped to. -/
def claims (r : LayoutRow) : List Nat :=
  claimsFrom 0 r.items

end LayoutRow

/-- A layout block that fits a matrix with `width` columns. -/
structure LayoutBlock.FitsMatrix (b : LayoutBlock) (width : Nat) : Prop where
  rows_pos : 1 ≤ b.rows.length
  rows_le : b.rows.length ≤ 256
  counts : ∀ row ∈ b.rows, ∀ item ∈ row.items, item.shape.Counted
  width_eq : ∀ row ∈ b.rows, row.width = width
  width_le : width ≤ 256
  remap_lt : ∀ row ∈ b.rows, ∀ item ∈ row.items, ∀ column, item.shape = .remap column →
    column < width
  distinct : ∀ row ∈ b.rows, row.claims.Nodup

namespace Layout

open Outcome
open RowClaims (columns_append)

/-! ## 2. The cells of a row -/

/-- The cells of an item whose first one stands in physical column `col`. -/
def itemCells (col : Nat) : LayoutItem.Shape → List Slot
  | .keys count => (List.range' col count.toNat).map .key
  | .spaces count => List.replicate count.toNat .space
  | .remap column => [.key column.toNat]

def cellsFrom (col : Nat) : List LayoutItem → List Slot
  | [] => []
  | item :: rest => itemCells col item.shape ++ cellsFrom (col + item.shape.width) rest

def rowCells (r : LayoutRow) : List Slot :=
  cellsFrom 0 r.items

theorem length_itemCells (col : Nat) (s : LayoutItem.Shape) :
    (itemCells col s).length = s.width := by
  cases s <;> simp [itemCells, LayoutItem.Shape.width]

theorem columns_map_key (cols : List Nat) : columns (cols.map .key) = cols := by
  simp [columns, List.filterMap_map, Function.comp_def, Slot.column?]

theorem columns_itemCells (col : Nat) (s : LayoutItem.Shape) :
    columns (itemCells col s) = s.claims col := by
  cases s with
  | keys count => exact columns_map_key _
  | spaces count => simp [itemCells, columns, LayoutItem.Shape.claims, Slot.column?]
  | remap column => rfl

theorem length_claims (col : Nat) (s : LayoutItem.Shape) :
    (s.claims col).length = s.keyCount := by
  cases s <;> simp [LayoutItem.Shape.claims, LayoutItem.Shape.keyCount]

theorem length_cellsFrom (col : Nat) (items : List LayoutItem) :
    (cellsFrom col items).length = (items.map (·.shape.width)).sum := by
  induction items generalizing col with
  | nil => rfl
  | cons item items ih =>
    rw [cellsFrom, List.length_append, length_itemCells, ih, List.map_cons, List.sum_cons]

theorem columns_cellsFrom (col : Nat) (items : List LayoutItem) :
    columns (cellsFrom col items) = LayoutRow.claimsFrom col items := by
  induction items generalizing col with
  | nil => rfl
  | cons item items ih =>
    rw [cellsFrom, columns_append, columns_itemCells, ih, LayoutRow.claimsFrom]

theorem length_claimsFrom (col : Nat) (items : List LayoutItem) :
    (LayoutRow.claimsFrom col items).length = (items.map (·.shape.keyCount)).sum := by
  induction items generalizing col with
  | nil => rfl
  | cons item items ih =>
    rw [LayoutRow.claimsFrom, List.length_append, length_claims, ih, List.map_cons, List.sum_cons]

/-- A claimed column stands in the row, or a key is remapped to it. -/
theorem claimsFrom_origin {col column : Nat} {items : List LayoutItem}
    (h : column ∈ LayoutRow.claimsFrom col items) :
    column < col + (items.map (·.shape.width)).sum ∨
      ∃ item ∈ items, ∃ c : Int, item.shape = .remap c ∧ column = c.toNat := by
  induction items generalizing col with
  | nil => cases h
  | cons item items ih =>
    rw [LayoutRow.claimsFrom, List.mem_append] at h
    rw [List.map_cons, List.sum_cons]
    rcases h with h | h
    · cases hshape : item.shape with
      | keys count =>
        rw [hshape, LayoutItem.Shape.claims, List.mem_range'_1] at h
        left
        show column < col + (count.toNat + _)
        omega
      | spaces count =>
        rw [hshape] at h
        cases h
      | remap c =>
        rw [hshape] at h
        right
        exact ⟨item, List.mem_cons_self, c, hshape, List.mem_singleton.mp h⟩
    · rcases ih h with hlt | ⟨item', hitem', c, hc⟩
      · left
        omega
      · right
        exact ⟨item', List.mem_cons_of_mem _ hitem', c, hc⟩

/-! ## 3. Resolving a row -/

/-- Cells that a row of a matrix can have. -/
structure Sound (slots : List Slot) : Prop where
  length_le : slots.length ≤ maxCoordinate + 1
  column_le : ∀ column ∈ columns slots, column ≤ maxCoordinate
  nodup : (columns slots).Nodup

theorem Sound.left {slots more : List Slot} (h : Sound (slots ++ more)) : Sound slots := by
  have hlength := h.length_le
  have hcolumn := h.column_le
  have hnodup := h.nodup
  rw [List.length_append] at hlength
  rw [columns_append] at hcolumn hnodup
  constructor
  · omega
  · intro column hmem
    exact hcolumn column (List.mem_append_left _ hmem)
  · exact (List.nodup_append.mp hnodup).1

theorem Sound.concat_key_iff {slots : List Slot} (h : Sound slots) (c : Nat) :
    Sound (slots ++ [.key c]) ↔
      c ≤ maxCoordinate ∧ slots.length ≤ maxCoordinate ∧ c ∉ columns slots := by
  have hcolumns : columns (slots ++ [.key c]) = columns slots ++ [c] :=
    columns_append slots [.key c]
  have hlength : (slots ++ [Slot.key c]).length = slots.length + 1 := List.length_append
  constructor
  · intro hmore
    have hle := hmore.length_le
    have hnodup := hmore.nodup
    rw [hcolumns, List.nodup_append] at hnodup
    refine ⟨hmore.column_le c (by simp [hcolumns]), by omega, fun hmem => ?_⟩
    exact hnodup.2.2 c hmem c List.mem_cons_self rfl
  · rintro ⟨hc, hle, hfresh⟩
    constructor
    · omega
    · intro column hmem
      rw [hcolumns, List.mem_append, List.mem_singleton] at hmem
      rcases hmem with hmem | rfl
      · exact h.column_le column hmem
      · exact hc
    · rw [hcolumns, List.nodup_append]
      refine ⟨h.nodup, by simp, ?_⟩
      intro a ha b hb hab
      rw [hab, List.mem_singleton.mp hb] at ha
      exact hfresh ha

theorem Sound.concat_space_iff {slots : List Slot} (h : Sound slots) :
    Sound (slots ++ [.space]) ↔ slots.length ≤ maxCoordinate := by
  have hcolumns : columns (slots ++ [.space]) = columns slots := by
    rw [columns_append]
    exact List.append_nil _
  have hlength : (slots ++ [Slot.space]).length = slots.length + 1 := List.length_append
  constructor
  · intro hmore
    have hle := hmore.length_le
    omega
  · intro hle
    refine ⟨by omega, ?_, ?_⟩
    · rw [hcolumns]
      exact h.column_le
    · rw [hcolumns]
      exact h.nodup

theorem checkCoordinate_decides (what : String) (n : Nat) (span : Span) :
    Decides (n ≤ maxCoordinate) (· = n) (checkCoordinate what n span) := by
  by_cases hn : n ≤ maxCoordinate
  · rw [checkCoordinate_eq_ok_iff.mpr ⟨rfl, hn⟩]
    exact ⟨hn, rfl⟩
  · rw [checkCoordinate, if_neg (by omega)]
    exact hn

theorem locate_decides {row : Nat} (hrow : row ≤ maxCoordinate) (col : Nat) (span : Span) :
    Decides (col ≤ maxCoordinate) (· = ⟨col, row⟩) (MatrixPos.locate col row span) := by
  unfold MatrixPos.locate
  apply (checkCoordinate_decides "row" row span).bind fun _ => hrow
  rintro _ - rfl
  apply (checkCoordinate_decides "column" col span).bind id
  rintro _ hcol rfl
  exact ⟨hcol, rfl⟩

namespace RowClaims

/-- A row under construction that has the cells `slots` and claims their columns. -/
structure Holds (slots : List Slot) (r : RowClaims) : Prop where
  slots_eq : r.slots = slots
  claims_eq : r.claims.map (·.1) = columns slots

variable {row : Nat} {slots : List Slot} {r : RowClaims}

theorem addKey_decides (hrow : row ≤ maxCoordinate) (hr : r.Holds slots) (hs : Sound slots)
    (c : Nat) (span : Span) :
    Decides (Sound (slots ++ [.key c])) (Holds (slots ++ [.key c])) (r.addKey row c span) := by
  have hiff := hs.concat_key_iff c
  obtain ⟨rfl, hclaims⟩ := hr
  unfold addKey
  apply (locate_decides hrow c span).bind fun h => (hiff.mp h).1
  rintro _ hc rfl
  apply (checkCoordinate_decides "column" r.next span).bind fun h => (hiff.mp h).2.1
  rintro _ hnext rfl
  -- A column is found among the claims exactly when a cell is wired to it.
  cases hfind : r.claims.find? (·.1 == c) with
  | some claim =>
    dsimp only
    intro hmore
    apply (hiff.mp hmore).2.2
    rw [← hclaims, List.mem_map]
    exact ⟨claim, List.mem_of_find?_eq_some hfind, by simpa using List.find?_some hfind⟩
  | none =>
    have hfresh : c ∉ columns r.slots := by
      rw [← hclaims, List.mem_map]
      rintro ⟨claim, hmem, hcol⟩
      exact List.find?_eq_none.mp hfind claim hmem (beq_iff_eq.mpr hcol)
    refine ⟨hiff.mpr ⟨hc, hnext, hfresh⟩, rfl, ?_⟩
    rw [List.map_append, hclaims, columns_append]
    rfl

theorem addKeys_decides (hrow : row ≤ maxCoordinate) (span : Span) (n : Nat)
    (hr : r.Holds slots) (hs : Sound slots) :
    Decides (Sound (slots ++ (List.range' slots.length n).map .key))
      (Holds (slots ++ (List.range' slots.length n).map .key)) (addKeys row span n r) := by
  induction n generalizing r slots with
  | zero =>
    rw [addKeys, List.range'_zero, List.map_nil, List.append_nil]
    exact ⟨hs, hr⟩
  | succ n ih =>
    have hnext : r.next = slots.length := congrArg List.length hr.slots_eq
    rw [addKeys, List.range'_succ, List.map_cons, List.append_cons, hnext]
    apply (addKey_decides hrow hr hs slots.length span).bind Sound.left
    intro r' hs' hr'
    have hrest := ih hr' hs'
    rwa [List.length_append] at hrest

theorem addSpaces_decides (span : Span) (n : Nat) (hr : r.Holds slots) (hs : Sound slots) :
    Decides (Sound (slots ++ List.replicate n .space))
      (Holds (slots ++ List.replicate n .space)) (addSpaces span n r) := by
  induction n generalizing r slots with
  | zero =>
    rw [addSpaces, List.replicate_zero, List.append_nil]
    exact ⟨hs, hr⟩
  | succ n ih =>
    have hnext : r.next = slots.length := congrArg List.length hr.slots_eq
    rw [addSpaces, List.replicate_succ, List.append_cons]
    apply (checkCoordinate_decides "column" r.next span).bind
    · intro h
      rw [hnext]
      exact hs.concat_space_iff.mp h.left
    · rintro _ hle -
      rw [hnext] at hle
      apply ih
      · refine ⟨congrArg (· ++ [Slot.space]) hr.slots_eq, ?_⟩
        rw [columns_append, hr.claims_eq]
        exact (List.append_nil _).symm
      · exact hs.concat_space_iff.mpr hle

/-- A key cannot be remapped to a negative column. -/
def Natural (item : LayoutItem) : Prop :=
  ∀ column, item.shape = .remap column → 0 ≤ column

/-- Counts below one are refused before anything else is decided. -/
theorem count_decides {α : Type} {P : Prop} {Q : α → Prop} (count : Int) (d : Diagnostic)
    {x : Except Diagnostic α} (hx : Decides P Q x) :
    Decides (1 ≤ count ∧ P) Q (if count ≤ 0 then .error d else x) := by
  by_cases hcount : count ≤ 0
  · rw [if_pos hcount]
    rintro ⟨hpos, -⟩
    omega
  · rw [if_neg hcount]
    have hpos : 1 ≤ count := by omega
    exact hx.congr (and_iff_right hpos).symm fun _ _ h => h

theorem addItem_decides (hrow : row ≤ maxCoordinate) {item : LayoutItem} (hitem : Natural item)
    (hr : r.Holds slots) (hs : Sound slots) :
    Decides (item.shape.Counted ∧ Sound (slots ++ itemCells slots.length item.shape))
      (Holds (slots ++ itemCells slots.length item.shape)) (addItem row r item) := by
  unfold addItem
  cases hshape : item.shape with
  | keys count =>
    exact count_decides count _ (addKeys_decides hrow item.span count.toNat hr hs)
  | spaces count =>
    exact count_decides count _ (addSpaces_decides item.span count.toNat hr hs)
  | remap column =>
    have hnat : column = column.toNat := (Int.toNat_of_nonneg (hitem column hshape)).symm
    dsimp only
    rw [hnat]
    exact (addKey_decides hrow hr hs column.toNat item.span).congr
      (and_iff_right trivial).symm fun _ _ h => h

theorem addItems_decides (hrow : row ≤ maxCoordinate) (items : List LayoutItem)
    (hitems : ∀ item ∈ items, Natural item) (hr : r.Holds slots) (hs : Sound slots) :
    Decides ((∀ item ∈ items, item.shape.Counted) ∧ Sound (slots ++ cellsFrom slots.length items))
      (Holds (slots ++ cellsFrom slots.length items)) (items.foldlM (addItem row) r) := by
  induction items generalizing r slots with
  | nil =>
    rw [cellsFrom, List.append_nil]
    exact ⟨⟨by simp, hs⟩, hr⟩
  | cons item items ih =>
    rw [List.foldlM_cons, cellsFrom, ← List.append_assoc]
    apply (addItem_decides hrow (hitems item List.mem_cons_self) hr hs).bind
    · rintro ⟨hcounts, hsound⟩
      exact ⟨hcounts item List.mem_cons_self, hsound.left⟩
    · rintro r' ⟨hcount, hs'⟩ hr'
      have hrest := ih (fun i hi => hitems i (List.mem_cons_of_mem _ hi)) hr' hs'
      rw [List.length_append, length_itemCells] at hrest
      apply hrest.congr _ fun _ _ h => h
      rw [List.forall_mem_cons, and_iff_right hcount]

end RowClaims

/-- A row that can be resolved, wherever it stands. -/
def RowFits (node : LayoutRow) : Prop :=
  (∀ item ∈ node.items, item.shape.Counted) ∧ Sound (rowCells node)

theorem resolveRow_decides (row : Nat) {node : LayoutRow}
    (hnode : ∀ item ∈ node.items, RowClaims.Natural item) :
    Decides (row ≤ maxCoordinate ∧ RowFits node) (· = rowCells node) (resolveRow row node) := by
  have hempty : Sound [] := ⟨Nat.zero_le _, by simp [columns], List.nodup_nil⟩
  unfold resolveRow
  apply (checkCoordinate_decides "row" row node.span).bind And.left
  rintro _ hrow -
  apply (RowClaims.addItems_decides hrow node.items hnode ⟨rfl, rfl⟩ hempty).bind And.right
  intro claims hfits hclaims
  exact ⟨⟨hrow, hfits⟩, hclaims.slots_eq⟩

/-! ## 4. Resolving a layout -/

theorem resolveRows_decides (first : Nat × Span) (nodes : List LayoutRow)
    (hnodes : ∀ node ∈ nodes, ∀ item ∈ node.items, RowClaims.Natural item) (row : Nat) :
    Decides ((nodes ≠ [] → row + nodes.length ≤ maxCoordinate + 1) ∧
        ∀ node ∈ nodes, RowFits node ∧ (rowCells node).length = first.1)
      (· = nodes.map rowCells) (resolveRows row (some first) nodes) := by
  induction nodes generalizing row with
  | nil => exact ⟨⟨fun hne => absurd rfl hne, by simp⟩, rfl⟩
  | cons node nodes ih =>
    rw [resolveRows]
    apply (resolveRow_decides row (hnodes node List.mem_cons_self)).bind
    · rintro ⟨hrows, hall⟩
      have hle := hrows (List.cons_ne_nil _ _)
      rw [List.length_cons] at hle
      exact ⟨by omega, (hall node List.mem_cons_self).1⟩
    · rintro slots ⟨hrow, hfits⟩ rfl
      simp only [Option.getD_some]
      by_cases hwidth : (rowCells node).length = first.1
      · rw [if_neg (not_not_intro hwidth)]
        have hrest := ih (fun n hn => hnodes n (List.mem_cons_of_mem _ hn)) (row + 1)
        apply hrest.bind
        · rintro ⟨hrows, hall⟩
          have hle := hrows (List.cons_ne_nil _ _)
          rw [List.length_cons] at hle
          exact ⟨fun _ => by omega, fun n hn => hall n (List.mem_cons_of_mem _ hn)⟩
        · rintro others ⟨hrows, hall⟩ rfl
          refine ⟨⟨fun _ => ?_, List.forall_mem_cons.mpr ⟨⟨hfits, hwidth⟩, hall⟩⟩, rfl⟩
          rw [List.length_cons]
          by_cases hne : nodes = []
          · rw [hne, List.length_nil]
            omega
          · have hle := hrows hne
            omega
      · rw [if_pos hwidth]
        rintro ⟨-, hall⟩
        exact hwidth (hall node List.mem_cons_self).2

/-- The first row sets the width for the others. -/
theorem resolveRows_none (row : Nat) {node : LayoutRow}
    (hnode : ∀ item ∈ node.items, RowClaims.Natural item) (nodes : List LayoutRow) :
    resolveRows row none (node :: nodes) =
      resolveRows row (some ((rowCells node).length, node.span)) (node :: nodes) := by
  rw [resolveRows, resolveRows]
  cases hslots : resolveRow row node with
  | error d => rfl
  | ok slots =>
    obtain ⟨-, rfl⟩ := (resolveRow_decides row hnode).of_ok hslots
    rfl

theorem exists_of_remapFaults {width : Nat} {nodes : List LayoutRow} {fault : Diagnostic}
    (h : remapFaults width nodes = some fault) :
    ∃ node ∈ nodes, ∃ item ∈ node.items, ∃ column, item.shape = .remap column ∧
      ¬ column < width := by
  obtain ⟨⟨node, row⟩, hnode, hitems⟩ := List.exists_of_findSome?_eq_some h
  obtain ⟨item, hitem, hfault⟩ := List.exists_of_findSome?_eq_some hitems
  have hmem := List.mem_of_getElem? (List.mem_zipIdx_iff_getElem?.mp hnode)
  refine ⟨node, hmem, item, hitem, ?_⟩
  unfold remapFault? at hfault
  cases hshape : item.shape with
  | keys count => simp [hshape] at hfault
  | spaces count => simp [hshape] at hfault
  | remap column =>
    rw [hshape] at hfault
    dsimp only at hfault
    by_cases hlt : column < width
    · rw [if_pos hlt] at hfault
      cases hfault
    · exact ⟨column, rfl, hlt⟩

theorem length_rowCells (node : LayoutRow) : (rowCells node).length = node.width :=
  length_cellsFrom 0 node.items

theorem columns_rowCells (node : LayoutRow) : columns (rowCells node) = node.claims :=
  columns_cellsFrom 0 node.items

theorem rowFits_of_fitsMatrix {block : LayoutBlock} {width : Nat} (h : block.FitsMatrix width)
    {node : LayoutRow} (hnode : node ∈ block.rows) : RowFits node := by
  have hwidth := h.width_eq node hnode
  have hle := h.width_le
  refine ⟨h.counts node hnode, ?_, ?_, ?_⟩
  · rw [length_rowCells]
    show node.width ≤ 255 + 1
    omega
  · intro column hcolumn
    rw [columns_rowCells] at hcolumn
    show column ≤ 255
    rcases claimsFrom_origin hcolumn with hlt | ⟨item, hitem, c, hshape, rfl⟩
    · have hsum : (node.items.map (·.shape.width)).sum = width := hwidth
      omega
    · have hlt := h.remap_lt node hnode item hitem c hshape
      omega
  · rw [columns_rowCells]
    exact h.distinct node hnode

/-- A block fits a matrix when its rows can be resolved to one width, and no key is remapped behind
it. -/
theorem fitsMatrix_of_rowFits {block : LayoutBlock} {width : Nat} (hne : block.rows ≠ [])
    (hheight : block.rows.length ≤ maxCoordinate + 1)
    (hall : ∀ node ∈ block.rows, RowFits node ∧ (rowCells node).length = width)
    (hfaults : remapFaults width block.rows = none) : block.FitsMatrix width where
  rows_pos := List.length_pos_iff.mpr hne
  rows_le := hheight
  counts := fun node hnode => (hall node hnode).1.1
  width_eq := by
    intro node hnode
    rw [← length_rowCells]
    exact (hall node hnode).2
  width_le := by
    obtain ⟨node, hnode⟩ := List.exists_mem_of_ne_nil _ hne
    rw [← (hall node hnode).2]
    exact (hall node hnode).1.2.length_le
  remap_lt := fun _ hnode _ hitem _ hshape => lt_width_of_remapFaults hfaults hnode hitem hshape
  distinct := by
    intro node hnode
    rw [← columns_rowCells]
    exact (hall node hnode).1.2.nodup

/-- A layout block is resolved exactly when it fits a matrix, and to the cells that its rows stand
for. -/
theorem resolve_decides {block : LayoutBlock}
    (hblock : ∀ node ∈ block.rows, ∀ item ∈ node.items, RowClaims.Natural item) :
    Decides (∃ width, block.FitsMatrix width) (· = ⟨block.rows.map rowCells⟩) (resolve block) := by
  unfold resolve
  cases hrows : block.rows with
  | nil =>
    rintro ⟨width, hfits⟩
    have hpos := hfits.rows_pos
    rw [hrows] at hpos
    exact absurd hpos (by decide)
  | cons node nodes =>
    rw [← hrows]
    have hnode : node ∈ block.rows := hrows ▸ List.mem_cons_self
    have hne : block.rows ≠ [] := List.ne_nil_of_mem hnode
    rw [if_neg (by simpa using hne)]
    have hdecides := resolveRows_decides ((rowCells node).length, node.span) block.rows hblock 0
    rw [hrows, ← resolveRows_none 0 (hblock node hnode) nodes, ← hrows] at hdecides
    apply hdecides.bind
    · rintro ⟨width, hfits⟩
      refine ⟨fun _ => ?_, fun n hn => ⟨rowFits_of_fitsMatrix hfits hn, ?_⟩⟩
      · have hle := hfits.rows_le
        show 0 + block.rows.length ≤ 255 + 1
        omega
      · rw [length_rowCells, length_rowCells, hfits.width_eq n hn, hfits.width_eq node hnode]
    · rintro rows ⟨hheight, hall⟩ rfl
      have hwidth : Layout.width ⟨block.rows.map rowCells⟩ = (rowCells node).length := by
        rw [hrows]
        rfl
      dsimp only
      rw [hwidth]
      -- The width is known now, and remapped keys are compared with it.
      cases hfaults : remapFaults (rowCells node).length block.rows with
      | some fault =>
        rintro ⟨width, hfits⟩
        obtain ⟨n, hn, item, hitem, column, hshape, hge⟩ := exists_of_remapFaults hfaults
        rw [length_rowCells, hfits.width_eq node hnode] at hge
        exact hge (hfits.remap_lt n hn item hitem column hshape)
      | none =>
        have hle : block.rows.length ≤ maxCoordinate + 1 := by
          have hbound := hheight hne
          omega
        exact ⟨⟨_, fitsMatrix_of_rowFits hne hle hall hfaults⟩, rfl⟩

theorem keyCounts_rowCells (nodes : List LayoutRow) :
    keyCounts ⟨nodes.map rowCells⟩ = nodes.map LayoutRow.keyCount := by
  unfold keyCounts
  rw [List.map_map]
  apply List.map_congr_left
  intro node _
  show (rowKeys (rowCells node)).length = node.keyCount
  rw [← List.length_map (f := Prod.snd), map_snd_rowKeys, columns_rowCells]
  exact length_claimsFrom 0 node.items

theorem natural_of_parse {source : Text} {d : Description} (h : Description.parse source = .ok d) :
    ∀ node ∈ d.layout.rows, ∀ item ∈ node.items, RowClaims.Natural item := by
  obtain ⟨f, rows, -, -, htree⟩ := Parser.description_sound h
  have hrows : d.layout.rows.map LayoutRow.unlocated =
      rows.map fun r => { items := r.items.map Grammar.Cell.tree } :=
    congrArg (·.layout.rows) htree
  intro node hnode item hitem column hshape
  have hmem : node.unlocated ∈ d.layout.rows.map LayoutRow.unlocated :=
    List.mem_map_of_mem hnode
  rw [hrows] at hmem
  obtain ⟨r, -, hr⟩ := List.mem_map.mp hmem
  have hunlocated : item.unlocated ∈ node.unlocated.items := List.mem_map_of_mem hitem
  rw [← hr] at hunlocated
  obtain ⟨cell, -, hcell⟩ := List.mem_map.mp hunlocated
  have htreeShape : cell.tree.shape = .remap column := by
    rw [hcell]
    exact hshape
  cases cell with
  | keys n => cases htreeShape
  | spaces n => cases htreeShape
  | remap n =>
    cases htreeShape
    exact Int.natCast_nonneg n

/-- A layout block that was read can be resolved exactly when it fits a matrix. The layout has the
width of that matrix, the rows of the block and as many keys in each row as the block asks for. -/
theorem resolve_accepts {source : Text} {d : Description} (h : Description.parse source = .ok d) :
    ((∃ l, resolve d.layout = .ok l) ↔ ∃ width, d.layout.FitsMatrix width) ∧
      ∀ l width, resolve d.layout = .ok l → d.layout.FitsMatrix width →
        l.width = width ∧ l.height = d.layout.rows.length ∧
          l.keyCounts = d.layout.rows.map LayoutRow.keyCount := by
  have hdecides := resolve_decides (natural_of_parse h)
  refine ⟨hdecides.succeeds_iff, fun l width hl hfits => ?_⟩
  obtain ⟨-, rfl⟩ := hdecides.of_ok hl
  refine ⟨?_, ?_, keyCounts_rowCells _⟩
  · cases hrows : d.layout.rows with
    | nil =>
      have hpos := hfits.rows_pos
      rw [hrows] at hpos
      exact absurd hpos (by decide)
    | cons node nodes =>
      rw [← hfits.width_eq node (hrows ▸ List.mem_cons_self), ← length_rowCells]
      rfl
  · exact List.length_map _

/-- A key behind a spacer is wired to the column of the spacer, above two keys that are wired
crosswise. -/
theorem resolve_accepts_crossedKeys : ∃ d l width,
    Description.parse (Text.ofString "layout \x7b 2k 1s [2]; [1] [0] 2k; \x7d") = .ok d ∧
      resolve d.layout = .ok l ∧ d.layout.FitsMatrix width ∧ l.width = width ∧
      l.keyCounts = d.layout.rows.map LayoutRow.keyCount := by
  have hrun : (Description.parse (Text.ofString "layout \x7b 2k 1s [2]; [1] [0] 2k; \x7d") >>=
      fun d => resolve d.layout).toOption.isSome = true := by
    decide +kernel
  obtain ⟨l, hl⟩ := Option.isSome_iff_exists.mp hrun
  obtain ⟨d, hparse, hresolve⟩ := bind_eq_ok_iff.mp (toOption_eq_some_iff.mp hl)
  obtain ⟨hiff, hviews⟩ := resolve_accepts hparse
  obtain ⟨width, hfits⟩ := hiff.mp ⟨l, hresolve⟩
  obtain ⟨hwidth, -, hcounts⟩ := hviews l width hresolve hfits
  exact ⟨d, l, width, hparse, hresolve, hfits, hwidth, hcounts⟩

end Layout

end Keyplan
