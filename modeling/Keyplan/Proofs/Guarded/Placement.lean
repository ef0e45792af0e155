import Keyplan.Compilation
import Keyplan.Proofs.Guarded.Parsing

/-!
# Guarded placement — resolving a description never misses

A chord looks at its neighbours by their positions in the row, a key that has no place looks up how
many keys its row has, and a row of the wrong width is compared with the first row. The row of a key
is always one of the layout, since a layer with more rows is refused before its keys are placed.
-/

namespace Keyplan.Guarded

open Outcome

/-! ## Layouts -/

/-- The cells of rows from row `row` on; `rows` are all rows of the layout, and `width` is the width
of the first one once it is known. -/
def resolveRows (rows : List LayoutRow) (row width : Nat) :
    List LayoutRow → Guarded (List (List Slot))
  | [] => return []
  | node :: rest => do
    let slots ← plain (Layout.resolveRow row node)
    let width := if row = 0 then slots.length else width
    if slots.length ≠ width then
      let first ← item rows 0
      throw (Layout.widthMismatch (width, first.span) slots.length node.span)
    let others ← resolveRows rows (row + 1) width rest
    return slots :: others

def resolveLayout (block : LayoutBlock) : Guarded Layout := do
  if block.rows.isEmpty then
    throw { cause := .meaning .emptyLayout, span := block.span }
  let layout : Layout := ⟨← resolveRows block.rows 0 0 block.rows⟩
  match Layout.remapFaults layout.width block.rows with
  | some fault => throw fault
  | none => return layout

/-- A row of another width is compared with the first row `head`, which is there. -/
theorem resolveRows_follows {rows : List LayoutRow} {head : LayoutRow}
    (hhead : rows[0]? = some head) (nodes : List LayoutRow) (row width : Nat)
    (hrow : row = 0 → nodes.head? = some head) :
    Follows Eq (resolveRows rows row width nodes)
      (Layout.resolveRows row (if row = 0 then none else some (width, head.span)) nodes) := by
  induction nodes generalizing row width with
  | nil => exact .ok rfl
  | cons node nodes ih =>
    rw [resolveRows, Layout.resolveRows]
    refine (Follows.plain (Layout.resolveRow row node)).bind fun slots _ _ hslots => ?_
    subst hslots
    have hfirst : (if row = 0 then none else some (width, head.span)).getD
        (slots.length, node.span) = (if row = 0 then slots.length else width, head.span) := by
      by_cases hzero : row = 0
      · rw [if_pos hzero, if_pos hzero, Option.some.inj (hrow hzero)]
        rfl
      · rw [if_neg hzero, if_neg hzero]
        rfl
    rw [hfirst]
    generalize (if row = 0 then slots.length else width) = width'
    by_cases hwidth : slots.length = width'
    · have hsame : ¬ slots.length ≠ width' := fun hne => hne hwidth
      simp only [if_neg hsame]
      -- From the second row on the width of the first one is known.
      have hrest := ih (row + 1) width' (by simp)
      refine hrest.bind fun others _ _ hothers => ?_
      exact .ok (by rw [hothers])
    · have hitem : item rows 0 = pure head := item_eq hhead
      simp only [if_pos hwidth]
      rw [hitem]
      exact .error _

theorem resolveLayout_follows (block : LayoutBlock) :
    Follows Eq (resolveLayout block) (Layout.resolve block) := by
  unfold resolveLayout Layout.resolve
  cases hrows : block.rows with
  | nil => exact .error _
  | cons head rows =>
    have hhead : (head :: rows)[0]? = some head := rfl
    refine (resolveRows_follows hhead (head :: rows) 0 0 fun _ => rfl).bind
      fun found _ _ hfound => ?_
    subst hfound
    dsimp only
    cases Layout.remapFaults (Layout.width ⟨found⟩) (head :: rows) with
    | some fault => exact .error _
    | none => exact .ok rfl

/-! ## Layers -/

/-- A key that has no layout key under it: the layout says how many keys the row has. -/
def impossibleKey (layout : Layout) (p : LayoutPos) (span : Span) : Guarded Diagnostic := do
  let count ← item layout.keyCounts p.row
  return {
    cause := .meaning .impossibleKeyLocation
    detail := s!"row {p.row + 1} of the layout has only {count} keys"
    span := span }

def keyUnder (layout : Layout) (p : LayoutPos) (span : Span) : Guarded (PhysicalPos × MatrixPos) :=
  match layout.keyAt? p with
  | some found => pure found
  | none => do throw (← impossibleKey layout p span)

/-- The chord at position `i` of a row. -/
def chordAt (items : List RowItem) (i : Nat) : Guarded Chord := do
  match ← item items i with
  | .chord c => return c
  | .key _ => miss

/-- The item in front of position `i` of a row, if there is one. -/
def itemBefore (items : List RowItem) (i : Nat) : Guarded (Option RowItem) :=
  if 0 < i then some <$> item items (i - 1) else return none

/-- The item behind position `i` of a row, if there is one. -/
def itemAfter (items : List RowItem) (i : Nat) : Guarded (Option RowItem) :=
  if i + 1 < items.length then some <$> item items (i + 1) else return none

def placeChord (layout : Layout) (node : LayerRow) (row col i : Nat) : Guarded PlacedChord := do
  let c ← chordAt node.items i
  let previous ← itemBefore node.items i
  let next ← itemAfter node.items i
  match previous, next with
  | some (.key k), some (.key k') =>
    let leftLayout : LayoutPos := ⟨col - 1, row⟩
    let (_, left) ← keyUnder layout leftLayout k.span
    let (_, right) ← keyUnder layout ⟨col, row⟩ k'.span
    return { chord := c, left := left, right := right, leftLayout := leftLayout }
  | _, _ => throw (Layer.badChord node previous next c)

def placeItems (layout : Layout) (node : LayerRow) (row i col : Nat) :
    List RowItem → Guarded (List PlacedKey × List PlacedChord)
  | [] => return ([], [])
  | .key k :: rest => do
    let (physical, matrix) ← keyUnder layout ⟨col, row⟩ k.span
    let (keys, chords) ← placeItems layout node row (i + 1) (col + 1) rest
    return ({ key := k, layout := ⟨col, row⟩, physical := physical, matrix := matrix } :: keys,
      chords)
  | .chord _ :: rest => do
    let placed ← placeChord layout node row col i
    let (keys, chords) ← placeItems layout node row (i + 1) col rest
    return (keys, placed :: chords)

def placeRows (layout : Layout) (name : String) (row : Nat) :
    List LayerRow → Guarded (List PlacedKey × List PlacedChord)
  | [] => return ([], [])
  | node :: rest => do
    if layout.height ≤ row then
      throw (Layer.extraRow layout name row node.span)
    let (keys, chords) ← placeItems layout node row 0 0 node.items
    let (keys', chords') ← placeRows layout name (row + 1) rest
    return (keys ++ keys', chords ++ chords')

def resolveLayer (layout : Layout) (block : LayerBlock) : Guarded Layer := do
  let (keys, chords) ← placeRows layout block.name 0 block.rows
  return { name := block.name, rowCount := block.rows.length, keys := keys, chords := chords }

/-- The row of a layout has a number of keys. -/
theorem keyUnder_follows {layout : Layout} {p : LayoutPos} (hp : p.row < layout.height)
    (span : Span) : Follows Eq (keyUnder layout p span) (Layer.keyUnder layout p span) := by
  unfold keyUnder Layer.keyUnder
  cases layout.keyAt? p with
  | some found => exact .ok rfl
  | none =>
    -- The row is one of the layout, so its number of keys can be looked up.
    have hlen : p.row < layout.keyCounts.length := by
      rw [Layout.keyCounts, List.length_map]
      exact hp
    have hcount := List.getElem?_eq_getElem hlen
    have hkeys : layout.keysInRow p.row = layout.keyCounts[p.row] := by
      rw [Layout.keysInRow, List.getD_eq_getElem?_getD, hcount]
      rfl
    unfold impossibleKey Layer.impossibleKey
    rw [item_eq hcount, hkeys]
    exact .error _

section

variable {items before rest : List RowItem} {c : Chord}

theorem chordAt_eq (h : items = before ++ .chord c :: rest) :
    chordAt items before.length = pure c := by
  have hget : items[before.length]? = some (.chord c) := by
    rw [h, List.getElem?_append_right (Nat.le_refl _), Nat.sub_self]
    rfl
  rw [chordAt, item_eq hget]
  rfl

theorem itemBefore_eq (h : items = before ++ .chord c :: rest) :
    itemBefore items before.length = pure before.getLast? := by
  unfold itemBefore
  cases hlast : before.getLast? with
  | none =>
    rw [List.getLast?_eq_none_iff.mp hlast]
    rfl
  | some i =>
    have hpos : 0 < before.length := List.length_pos_iff.mpr (by rintro rfl; cases hlast)
    have hcast : (before.length : Int) - 1 = ((before.length - 1 : Nat) : Int) := by omega
    have hget : items[before.length - 1]? = some i := by
      rw [h, List.getElem?_append_left (by omega), ← hlast, List.getLast?_eq_getElem?]
    rw [if_pos hpos, hcast, item_eq hget]
    rfl

theorem itemAfter_eq (h : items = before ++ .chord c :: rest) :
    itemAfter items before.length = pure rest.head? := by
  have hlen : items.length = before.length + 1 + rest.length := by
    rw [h, List.length_append, List.length_cons]
    omega
  unfold itemAfter
  cases rest with
  | nil =>
    rw [if_neg (by simp at hlen; omega)]
    rfl
  | cons i rest =>
    have hget : items[before.length + 1]? = some i := by
      rw [h, List.getElem?_append_right (by omega), Nat.add_sub_cancel_left]
      rfl
    rw [if_pos (by simp at hlen; omega)]
    exact congrArg (some <$> ·) (item_eq hget)

/-- A chord is an item of its row, and its neighbours are the items next to it. -/
theorem placeChord_follows {layout : Layout} {node : LayerRow}
    (hitems : node.items = before ++ .chord c :: rest) {row : Nat} (hrow : row < layout.height)
    (col : Nat) :
    Follows Eq (placeChord layout node row col before.length)
      (Layer.placeChord layout node row col before.getLast? rest.head? c) := by
  unfold placeChord Layer.placeChord
  rw [chordAt_eq hitems, pure_bind, itemBefore_eq hitems, pure_bind, itemAfter_eq hitems, pure_bind]
  -- Only a key on each side gives the chord a place.
  cases before.getLast? with
  | none => exact .error _
  | some previous =>
    cases previous with
    | chord _ => exact .error _
    | key k =>
      cases rest.head? with
      | none => exact .error _
      | some next =>
        cases next with
        | chord _ => exact .error _
        | key k' =>
          refine (keyUnder_follows hrow k.span).bind fun left _ _ hleft => ?_
          refine (keyUnder_follows hrow k'.span).bind fun right _ _ hright => ?_
          exact .ok (by rw [hleft, hright])

end

theorem placeItems_follows {layout : Layout} {node : LayerRow} {row : Nat}
    (hrow : row < layout.height) (items before : List RowItem)
    (hitems : node.items = before ++ items) (col : Nat) :
    Follows Eq (placeItems layout node row before.length col items)
      (Layer.placeItems layout node row before.getLast? col items) := by
  -- The items before are carried along: positions count from the start of the row.
  induction items generalizing before col with
  | nil => exact .ok rfl
  | cons i items ih =>
    have hrest : node.items = (before ++ [i]) ++ items := by
      rw [hitems, List.append_assoc]
      rfl
    have hmore := ih (before ++ [i]) hrest
    rw [List.getLast?_concat, List.length_append, List.length_singleton] at hmore
    cases i with
    | key k =>
      refine (keyUnder_follows (p := ⟨col, row⟩) hrow k.span).bind fun found _ _ hfound => ?_
      subst hfound
      refine (hmore (col + 1)).bind fun placed _ _ hplaced => ?_
      subst hplaced
      exact .ok rfl
    | chord c =>
      refine (placeChord_follows hitems hrow col).bind fun chord _ _ hchord => ?_
      subst hchord
      refine (hmore col).bind fun placed _ _ hplaced => ?_
      subst hplaced
      exact .ok rfl

theorem placeRows_follows (layout : Layout) (name : String) (nodes : List LayerRow) (row : Nat) :
    Follows Eq (placeRows layout name row nodes) (Layer.placeRows layout name row nodes) := by
  induction nodes generalizing row with
  | nil => exact .ok rfl
  | cons node nodes ih =>
    rw [placeRows, Layer.placeRows]
    -- A row that passes this test is one of the layout.
    by_cases hrow : layout.height ≤ row
    · simp only [if_pos hrow]
      exact .error _
    · simp only [if_neg hrow]
      have hitems : node.items = [] ++ node.items := rfl
      refine (placeItems_follows (Nat.lt_of_not_le hrow) node.items [] hitems 0).bind
        fun placed _ _ hplaced => ?_
      subst hplaced
      refine (ih (row + 1)).bind fun placed' _ _ hplaced' => ?_
      subst hplaced'
      exact .ok rfl

theorem resolveLayer_follows (layout : Layout) (block : LayerBlock) :
    Follows Eq (resolveLayer layout block) (Layer.resolve layout block) := by
  refine (placeRows_follows layout block.name block.rows 0).bind fun placed _ _ hplaced => ?_
  subst hplaced
  exact .ok rfl

/-! ## Keymaps -/

def resolveLayers (layout : Layout) (blocks : List LayerBlock) : Guarded (List Layer) := do
  plain (Layer.checkNames [] blocks)
  blocks.mapM (resolveLayer layout)

def resolve (d : Description) (defaults : List DefaultOption) : Guarded Keymap := do
  let options ← plain (OptionTable.resolve d.options defaults)
  let customKeys ← plain (CustomKeys.resolve d.keys)
  let layout ← resolveLayout d.layout
  let layers ← resolveLayers layout d.layers
  return {
    description := d
    layout := layout
    layers := layers
    options := { options with anchor := d.layout.span.first }
    customKeys := customKeys }

def read (source : Text) (defaults : List DefaultOption) : Guarded Keymap := do
  let d ← parse source
  resolve d defaults

theorem resolveLayers_follows (layout : Layout) (blocks : List LayerBlock) :
    Follows Eq (resolveLayers layout blocks) (Layer.resolveAll layout blocks) := by
  refine (Follows.plain (Layer.checkNames [] blocks)).bind fun _ _ _ _ => ?_
  exact Follows.mapM blocks fun block _ => resolveLayer_follows layout block

theorem resolve_follows (d : Description) (defaults : List DefaultOption) :
    Follows Eq (resolve d defaults) (Keymap.resolve d defaults) := by
  unfold resolve Keymap.resolve
  refine (Follows.plain _).bind fun options _ _ hoptions => ?_
  refine (Follows.plain _).bind fun customKeys _ _ hcustomKeys => ?_
  refine (resolveLayout_follows d.layout).bind fun layout _ _ hlayout => ?_
  subst hoptions hcustomKeys hlayout
  refine (resolveLayers_follows layout d.layers).bind fun layers _ _ hlayers => ?_
  subst hlayers
  exact .ok rfl

/-- Loading a description never misses. -/
theorem read_follows (source : Text) (defaults : List DefaultOption) :
    Follows Eq (read source defaults) (Keymap.read source defaults) := by
  refine (parse_follows source).bind fun d _ _ hd => ?_
  subst hd
  exact resolve_follows d defaults

end Keyplan.Guarded
