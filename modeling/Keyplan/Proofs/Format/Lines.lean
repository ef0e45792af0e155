import Keyplan.Proofs.Format.Words
import Keyplan.Proofs.Layer.Placement
import Keyplan.Proofs.Layout.Coordinates

/-!
# Lines — the rows of a layer as they are written

The cells of a line follow the physical columns of the layout. Its words are the items of the row
in the order they were written: the keys of a row are numbered from left to right, and a chord
stands in the cell behind the key on its left, which is wide enough to hold it.
-/

namespace Keyplan.Format

open Layer (keyItem chordItem PlacedItems)

/-! ## From physical columns to layout columns -/

/-- Going through the columns `a`, `a + 1`, … and looking each one up in an increasing list is
going through the list. -/
theorem flatMap_findIdx? {α : Type} (k a : Nat) (xs : List Nat) (g : Nat → List α)
    (hxs : xs.Pairwise (· < ·)) (hlo : ∀ x ∈ xs, a ≤ x) (hhi : ∀ x ∈ xs, x < a + k) :
    ((List.range' a k).flatMap fun col => ((xs.findIdx? (· == col)).map g).getD []) =
      (List.range xs.length).flatMap g := by
  -- On the number of columns; what is found moves by one when the first element is used up.
  induction k generalizing a xs g with
  | zero =>
    cases xs with
    | nil => rfl
    | cons x xs =>
      have h₁ := hlo x List.mem_cons_self
      have h₂ := hhi x List.mem_cons_self
      omega
  | succ k ih =>
    rw [List.range'_succ, List.flatMap_cons]
    cases xs with
    | nil =>
      simp
    | cons x xs =>
      obtain ⟨hx, hxs'⟩ := List.pairwise_cons.mp hxs
      have hlo' : ∀ y ∈ xs, a + 1 ≤ y := by
        intro y hy
        have := hx y hy
        have := hlo x List.mem_cons_self
        omega
      have hhi' : ∀ y ∈ xs, y < a + 1 + k := by
        intro y hy
        have := hhi y (List.mem_cons_of_mem _ hy)
        omega
      by_cases hxa : x = a
      · -- The first column is that of the first element; the others look at the rest.
        subst hxa
        have hrest : ((List.range' (x + 1) k).flatMap fun col =>
            (((x :: xs).findIdx? (· == col)).map g).getD []) =
            (List.range' (x + 1) k).flatMap fun col =>
              ((xs.findIdx? (· == col)).map fun i => g (i + 1)).getD [] := by
          refine List.flatMap_congr fun col hcol => ?_
          have hne : (x == col) = false := by
            have := (List.mem_range'_1.mp hcol).1
            exact beq_eq_false_iff_ne.mpr (by omega)
          rw [List.findIdx?_cons, hne]
          simp [Function.comp_def]
        have hfirst : ((x :: xs).findIdx? (· == x)) = some 0 := by simp [List.findIdx?_cons]
        rw [hrest, hfirst, ih (x + 1) xs (fun i => g (i + 1)) hxs' hlo' hhi', List.length_cons,
          List.range_succ_eq_map, List.flatMap_cons, List.flatMap_map]
        rfl
      -- No element has this column: nothing is found, and the list stays whole.
      · have hlt : a < x := by
          have := hlo x List.mem_cons_self
          omega
        have hnone : (x :: xs).findIdx? (· == a) = none := by
          refine List.findIdx?_eq_none_iff.mpr fun y hy => ?_
          have : a < y := by
            rcases List.mem_cons.mp hy with rfl | hy
            · exact hlt
            · exact hlo' y hy
          exact beq_eq_false_iff_ne.mpr (by omega)
        rw [hnone]
        refine ih (a + 1) (x :: xs) g hxs ?_ ?_
        · intro y hy
          rcases List.mem_cons.mp hy with rfl | hy
          · exact hlt
          · exact hlo' y hy
        · intro y hy
          have := hhi y hy
          omega

theorem layoutOf?_eq {layout : Layout} {row : Nat} {slots : List Slot}
    (h : layout.rows[row]? = some slots) (col : Nat) :
    layout.layoutOf? ⟨col, row⟩ =
      (((Layout.rowKeys slots).map (·.1)).findIdx? (· == col)).map fun c => ⟨c, row⟩ := by
  unfold Layout.layoutOf?
  simp only [h, Option.bind_eq_bind, Option.bind_some, List.findIdx?_map, Function.comp_def]
  cases (Layout.rowKeys slots).findIdx? fun x => x.1 == col <;> rfl

/-- The keys of a row from left to right are its keys in the order of their numbers. -/
theorem flatMap_layoutOf? {α : Type} {layout : Layout} (hlayout : layout.WellFormed) {row : Nat}
    {slots : List Slot} (hrow : layout.rows[row]? = some slots) (g : LayoutPos → List α) :
    ((List.range layout.width).flatMap fun col => ((layout.layoutOf? ⟨col, row⟩).map g).getD []) =
      (List.range (Layout.rowKeys slots).length).flatMap fun c => g ⟨c, row⟩ := by
  have hincreasing : ((Layout.rowKeys slots).map (·.1)).Pairwise (· < ·) :=
    List.pairwise_map.mpr (Layout.rowKeys_increasing slots)
  have hwidth : ∀ x ∈ (Layout.rowKeys slots).map (·.1), x < 0 + layout.width := by
    intro x hx
    obtain ⟨key, hkey, rfl⟩ := List.mem_map.mp hx
    have hlt := Layout.fst_lt_of_mem_rowKeys hkey
    rw [hlayout.length_eq slots (List.mem_of_getElem? hrow)] at hlt
    omega
  have hall := flatMap_findIdx? layout.width 0 ((Layout.rowKeys slots).map (·.1))
    (fun c => g ⟨c, row⟩) hincreasing (fun x _ => Nat.zero_le x) hwidth
  rw [List.length_map, ← List.range_eq_range'] at hall
  rw [← hall]
  refine List.flatMap_congr fun col _ => ?_
  rw [layoutOf?_eq hrow, Option.map_map]
  rfl

/-! ## The cells of a line -/

/-- The texts of the cells of a column with the widths they are padded to. -/
def columnTexts (width : ColumnWidth) (key chord : List Char) : List (List Char × Nat) :=
  (key, width.key) :: if width.chord = 0 then [] else [(chord, width.chord)]

theorem columnCells_eq (width : ColumnWidth) (key chord : List Char) :
    columnCells width key chord = (columnTexts width key chord).map fun p => pad p.1 p.2 := by
  unfold columnCells columnTexts
  split <;> rfl

def textsAt (keys : List PlacedKey) (chords : List PlacedChord) (p : LayoutPos) :
    List Char × List Char :=
  (((keys.find? fun k => decide (k.layout = p)).map (·.key.spelling)).getD [],
    ((chords.find? fun c => decide (c.leftLayout = p)).map (·.chord.spelling)).getD [])

/-- The texts of a line with the widths they are padded to. -/
def lineTexts (layout : Layout) (widths : List ColumnWidth) (row : Nat) (keys : List PlacedKey)
    (chords : List PlacedChord) : List (List Char × Nat) :=
  widths.zipIdx.flatMap fun (width, col) =>
    let texts := ((layout.layoutOf? ⟨col, row⟩).map (textsAt keys chords)).getD ([], [])
    columnTexts width texts.1 texts.2

theorem layerLine_eq (layout : Layout) (widths : List ColumnWidth) (row : Nat)
    (keys : List PlacedKey) (chords : List PlacedChord) :
    layerLine layout widths row keys chords =
      trimmed (List.intercalate [' ']
        ((lineTexts layout widths row keys chords).map fun p => pad p.1 p.2)) := by
  unfold layerLine lineTexts
  rw [List.map_flatMap]
  show trimmed _ = _
  refine congrArg trimmed (congrArg (List.intercalate [' ']) ?_)
  refine List.flatMap_congr fun x _ => ?_
  obtain ⟨width, col⟩ := x
  dsimp only
  rw [← columnCells_eq]
  split <;> rename_i h <;> rw [h] <;> rfl

/-! ## The words of a line -/

/-- The words of a column are the texts of its key and of its chord, unless there is none. -/
theorem words_column {keys : List PlacedKey} {chords : List PlacedChord}
    (hkeys : ∀ k ∈ keys, k.key.spelling ≠ []) (hchords : ∀ c ∈ chords, c.chord.spelling ≠ [])
    {p : LayoutPos} {width : ColumnWidth}
    (hwide : ∀ c ∈ chords, c.leftLayout = p → width.chord ≠ 0) :
    ((columnTexts width (textsAt keys chords p).1 (textsAt keys chords p).2).map (·.1)).filter
        (· ≠ []) =
      (keyItem keys p ++ chordItem chords p).map RowItem.spelling := by
  -- A key or a chord that is there is not blank, so only missing ones are dropped.
  have hkey : [(textsAt keys chords p).1].filter (· ≠ []) =
      (keyItem keys p).map RowItem.spelling := by
    unfold textsAt keyItem
    cases hfind : keys.find? fun k => decide (k.layout = p) with
    | none => rfl
    | some k =>
      have hne := hkeys k (List.mem_of_find?_eq_some hfind)
      simp [RowItem.spelling, hne]
  have hchord : ((if width.chord = 0 then [] else [((textsAt keys chords p).2, width.chord)]).map
      (·.1)).filter (· ≠ []) = (chordItem chords p).map RowItem.spelling := by
    unfold textsAt chordItem
    cases hfind : chords.find? fun c => decide (c.leftLayout = p) with
    | none => split <;> rfl
    | some c =>
      have hmem := List.mem_of_find?_eq_some hfind
      have hleft : c.leftLayout = p := by
        have hdecide := List.find?_some hfind
        exact of_decide_eq_true hdecide
      rw [if_neg (hwide c hmem hleft)]
      simp [RowItem.spelling, hchords c hmem]
  rw [List.map_append, ← hkey, ← hchord, ← List.filter_append]
  rfl

theorem mem_columnTexts {width : ColumnWidth} {key chord : List Char} {p : List Char × Nat}
    (h : p ∈ columnTexts width key chord) : p.1 = key ∨ p.1 = chord := by
  unfold columnTexts at h
  rcases List.mem_cons.mp h with rfl | h
  · exact .inl rfl
  · split at h
    · cases h
    · exact .inr (congrArg Prod.fst (List.mem_singleton.mp h))

theorem getD_find? {α : Type} (xs : List α) (place : α → LayoutPos) (text : α → List Char)
    (p : LayoutPos) : ((xs.find? fun x => decide (place x = p)).map text).getD [] = [] ∨
      ∃ x ∈ xs, place x = p ∧
        ((xs.find? fun x => decide (place x = p)).map text).getD [] = text x := by
  cases hfind : xs.find? fun x => decide (place x = p) with
  | none => exact .inl rfl
  | some x =>
    have hplace := List.find?_some hfind
    exact .inr ⟨x, List.mem_of_find?_eq_some hfind, of_decide_eq_true hplace, rfl⟩

theorem textsAt_tight {keys : List PlacedKey} {chords : List PlacedChord}
    (hkeys : ∀ k ∈ keys, EndsTight k.key.spelling)
    (hchords : ∀ c ∈ chords, EndsTight c.chord.spelling) (p : LayoutPos) :
    ((textsAt keys chords p).1 = [] ∨ EndsTight (textsAt keys chords p).1) ∧
      ((textsAt keys chords p).2 = [] ∨ EndsTight (textsAt keys chords p).2) := by
  unfold textsAt
  constructor
  · rcases getD_find? keys (·.layout) (·.key.spelling) p with h | ⟨k, hk, -, h⟩
    · exact .inl h
    · exact .inr (h ▸ hkeys k hk)
  · rcases getD_find? chords (·.leftLayout) (·.chord.spelling) p with h | ⟨c, hc, -, h⟩
    · exact .inl h
    · exact .inr (h ▸ hchords c hc)

/-- The words of a line are the items of its row. -/
theorem spaced_layerLine {layout : Layout} (hlayout : layout.WellFormed) {row : Nat}
    (hrow : row < layout.height) {items : List RowItem} {keys : List PlacedKey}
    {chords : List PlacedChord} (hplaced : PlacedItems layout row false 0 items keys chords)
    (htight : ∀ item ∈ items, EndsTight item.spelling) {widths : List ColumnWidth}
    (hlen : widths.length = layout.width)
    (hwide : ∀ width col, (width, col) ∈ widths.zipIdx → ∀ c ∈ chords, ∀ m,
      layout.keyAt? c.leftLayout = some (⟨col, row⟩, m) → width.chord ≠ 0) :
    Spaced (items.map RowItem.spelling) (layerLine layout widths row keys chords) := by
  have hkeys : ∀ k ∈ keys, EndsTight k.key.spelling := fun k hk =>
    htight _ (hplaced.key_mem_items hk)
  have hchords : ∀ c ∈ chords, EndsTight c.chord.spelling := fun c hc =>
    htight _ (hplaced.chord_mem_items hc)
  have hslots : layout.rows[row]? = some layout.rows[row] := List.getElem?_eq_getElem hrow
  -- Over the cells, then over physical columns, then over layout columns, to the items.
  have hwords : ((lineTexts layout widths row keys chords).map (·.1)).filter (· ≠ []) =
      items.map RowItem.spelling :=
    calc ((lineTexts layout widths row keys chords).map (·.1)).filter (· ≠ [])
        = widths.zipIdx.flatMap fun x => ((layout.layoutOf? ⟨x.2, row⟩).map fun p =>
            (keyItem keys p ++ chordItem chords p).map RowItem.spelling).getD [] := by
          unfold lineTexts
          rw [List.map_flatMap, List.filter_flatMap]
          refine List.flatMap_congr fun x hx => ?_
          obtain ⟨width, col⟩ := x
          dsimp only
          cases hp : layout.layoutOf? ⟨col, row⟩ with
          | none => simp [columnTexts]
          | some p =>
            obtain ⟨m, hm⟩ := Layout.layoutOf?_eq_some_iff.mp hp
            exact words_column (fun k hk => (hkeys k hk).ne_nil)
              (fun c hc => (hchords c hc).ne_nil)
              (fun c hc e => hwide width col hx c hc m (e ▸ hm))
      _ = (List.range layout.width).flatMap fun col => ((layout.layoutOf? ⟨col, row⟩).map fun p =>
            (keyItem keys p ++ chordItem chords p).map RowItem.spelling).getD [] := by
          rw [← hlen, List.range_eq_range', ← List.zipIdx_map_snd, List.flatMap_map]
      _ = (List.range (Layout.rowKeys layout.rows[row]).length).flatMap fun c =>
            (keyItem keys ⟨c, row⟩ ++ chordItem chords ⟨c, row⟩).map RowItem.spelling :=
          flatMap_layoutOf? hlayout hslots _
      _ = items.map RowItem.spelling := by
          rw [← List.map_flatMap]
          refine congrArg _ ?_
          have hitems := hplaced.items_eq (n := (Layout.rowKeys layout.rows[row]).length) ?_ nofun
          · rw [hitems, List.range_eq_range']
            rfl
          -- There are as many layout columns as the row has keys.
          · intro c hc
            obtain ⟨⟨phys, m⟩, hat⟩ := Option.isSome_iff_exists.mp hc
            obtain ⟨⟨slots, hslots', hkey⟩, -⟩ := Layout.keyAt?_eq_some_iff.mp hat
            obtain rfl := Option.some.inj (hslots.symm.trans hslots')
            exact (List.getElem?_eq_some_iff.mp hkey).1
  rw [layerLine_eq, ← hwords]
  refine (Spaced.cells _ ?_).trim
  intro text htext
  unfold lineTexts at htext
  obtain ⟨⟨width, col⟩, -, htext⟩ := List.mem_flatMap.mp htext
  dsimp only at htext
  cases hp : layout.layoutOf? ⟨col, row⟩ with
  | none =>
    rw [hp] at htext
    exact (mem_columnTexts htext).elim .inl .inl
  | some p =>
    rw [hp] at htext
    obtain ⟨hkey, hchord⟩ := textsAt_tight hkeys hchords p
    rcases mem_columnTexts htext with e | e
    · exact e ▸ hkey
    · exact e ▸ hchord

/-! ## The widths of the columns -/

theorem le_largest {ns : List Nat} {n : Nat} (h : n ∈ ns) : n ≤ largest ns := by
  -- The accumulator only grows.
  have hfold : ∀ (ns : List Nat) (acc : Nat), acc ≤ ns.foldl max acc ∧
      ∀ n ∈ ns, n ≤ ns.foldl max acc := by
    intro ns
    induction ns with
    | nil => exact fun acc => ⟨Nat.le_refl _, nofun⟩
    | cons m ns ih =>
      intro acc
      obtain ⟨hacc, hall⟩ := ih (max acc m)
      have hm : m ≤ ns.foldl max (max acc m) := Nat.le_trans (Nat.le_max_right _ _) hacc
      refine ⟨Nat.le_trans (Nat.le_max_left _ _) hacc, ?_⟩
      intro n hn
      rcases List.mem_cons.mp hn with rfl | hn
      · exact hm
      · exact hall n hn
  exact (hfold ns 0).2 n h

theorem length_columnWidths (m : Keymap) : (columnWidths m).length = m.layout.width := by
  simp [columnWidths]

/-- The cells behind the left key of a chord are as wide as the chord. -/
theorem le_chord_width {m : Keymap} {l : Layer} (hl : l ∈ m.layers) {c : PlacedChord}
    (hc : c ∈ l.chords) {width : ColumnWidth} {col : Nat}
    (hwidth : (width, col) ∈ (columnWidths m).zipIdx) {row : Nat} {pos : MatrixPos}
    (hat : m.layout.keyAt? c.leftLayout = some (⟨col, row⟩, pos)) :
    c.chord.spelling.length ≤ width.chord := by
  have hget : (columnWidths m)[col]? = some width := List.mem_zipIdx_iff_getElem?.mp hwidth
  obtain ⟨hlt, -⟩ := List.getElem?_eq_some_iff.mp hget
  rw [length_columnWidths] at hlt
  unfold columnWidths at hget
  rw [List.getElem?_map, List.getElem?_range hlt] at hget
  obtain rfl := Option.some.inj hget
  apply le_largest
  refine List.mem_map.mpr ⟨(some col, c.chord.spelling.length), ?_, rfl⟩
  refine List.mem_filter.mpr ⟨?_, beq_self_eq_true (some col)⟩
  refine List.mem_flatMap.mpr ⟨l, hl, List.mem_map.mpr ⟨c, hc, ?_⟩⟩
  rw [chordColumn?, hat]
  rfl

theorem spaced_layerLines {m : Keymap} (hlayout : m.layout.WellFormed) {l : Layer}
    (hl : l ∈ m.layers) {nodes : List LayerRow}
    (hplaced : Layer.PlacedRows m.layout 0 nodes l.keys l.chords) {i : Nat} {node : LayerRow}
    (hi : nodes[i]? = some node) (htight : ∀ item ∈ node.items, EndsTight item.spelling) :
    Spaced (node.items.map RowItem.spelling)
      (layerLine m.layout (columnWidths m) i (l.keys.filter (·.layout.row == i))
        (l.chords.filter (·.leftLayout.row == i))) := by
  have hitems := hplaced.items hi
  rw [Nat.zero_add] at hitems
  refine spaced_layerLine hlayout ?_ hitems htight (length_columnWidths m) ?_
  · exact Nat.zero_add i ▸ hplaced.lt_height hi
  -- A column of width zero would have a chord without text in it.
  · intro width col hwidth c hc pos hat hzero
    have hmem := (List.mem_filter.mp hc).1
    have hle := le_chord_width hl hmem hwidth hat
    have hne := (htight _ (hitems.chord_mem_items hc)).ne_nil
    rw [hzero, Nat.le_zero] at hle
    exact hne (List.length_eq_zero_iff.mp hle)

end Keyplan.Format
