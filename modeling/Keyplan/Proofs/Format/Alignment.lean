import Keyplan.Proofs.Concatenation
import Keyplan.Proofs.Format.Reading
import Keyplan.Proofs.Layer.Neighbours
import Keyplan.Proofs.OptionTable
import Mathlib.Data.List.Nodup

/-!
# Alignment — the columns of the layers in the canonical form

A physical column is as wide as the longest key in it on any layer, and when it has chords there is
room behind its keys for the longest of them. So the texts of a column start at the same place on
all rows of all layers, which is known from the widths of the columns before it.
-/

namespace Keyplan.Format

open Outcome

/-! ## 1. Widths -/

/-- The texts of the keys in a physical column, on all layers. -/
def columnKeys (m : Keymap) (col : Nat) : List (List Char) :=
  m.layers.flatMap fun l => (l.keys.filter fun k => k.physical.col == col).map (·.key.spelling)

/-- The texts of the chords whose left keys are in a physical column, on all layers. -/
def columnChords (m : Keymap) (col : Nat) : List (List Char) :=
  m.layers.flatMap fun l =>
    (l.chords.filter fun c => chordColumn? m.layout c == some col).map (·.chord.spelling)

def columnWidth (m : Keymap) (col : Nat) : ColumnWidth where
  key := largest ((columnKeys m col).map List.length)
  chord := largest ((columnChords m col).map List.length)

/-- A width that is enough for all texts and not more than one of them needs. -/
def IsWidest (n : Nat) (texts : List (List Char)) : Prop :=
  (∀ t ∈ texts, t.length ≤ n) ∧ (n = 0 ∨ ∃ t ∈ texts, t.length = n)

theorem columnWidths_eq_map (m : Keymap) :
    columnWidths m = (List.range m.layout.width).map (columnWidth m) := by
  unfold columnWidths columnWidth columnKeys columnChords
  simp only [List.filter_flatMap, List.map_flatMap, List.filter_map, List.map_map,
    Function.comp_def]

theorem largest_mem (ns : List Nat) : largest ns = 0 ∨ largest ns ∈ ns := by
  have hfold : ∀ acc, ns.foldl max acc = acc ∨ ns.foldl max acc ∈ ns := by
    induction ns with
    | nil => exact fun acc => .inl rfl
    | cons n ns ih =>
      intro acc
      rw [List.foldl_cons]
      rcases ih (max acc n) with h | h
      · rw [h]
        rcases Nat.le_total acc n with hle | hle
        · rw [Nat.max_eq_right hle]
          exact .inr List.mem_cons_self
        · exact .inl (Nat.max_eq_left hle)
      · exact .inr (List.mem_cons_of_mem _ h)
  exact hfold 0

theorem isWidest_largest (texts : List (List Char)) :
    IsWidest (largest (texts.map List.length)) texts := by
  refine ⟨fun t ht => le_largest (List.mem_map_of_mem ht), ?_⟩
  rcases largest_mem (texts.map List.length) with h | h
  · exact .inl h
  · exact .inr (List.mem_map.mp h)

theorem key_le_width {m : Keymap} {l : Layer} (hl : l ∈ m.layers) {k : PlacedKey}
    (hk : k ∈ l.keys) : k.key.spelling.length ≤ (columnWidth m k.physical.col).key := by
  apply (isWidest_largest (columnKeys m k.physical.col)).1
  refine List.mem_flatMap.mpr ⟨l, hl, List.mem_map.mpr ⟨k, ?_, rfl⟩⟩
  exact List.mem_filter.mpr ⟨hk, beq_self_eq_true _⟩

theorem chord_le_width {m : Keymap} {l : Layer} (hl : l ∈ m.layers) {c : PlacedChord}
    (hc : c ∈ l.chords) {col : Nat} (hcol : chordColumn? m.layout c = some col) :
    c.chord.spelling.length ≤ (columnWidth m col).chord := by
  apply (isWidest_largest (columnChords m col)).1
  refine List.mem_flatMap.mpr ⟨l, hl, List.mem_map.mpr ⟨c, ?_, rfl⟩⟩
  exact List.mem_filter.mpr ⟨hc, beq_iff_eq.mpr hcol⟩

/-! ## 2. Offsets -/

/-- Where the keys of a physical column start, counted from the start of a line. -/
def keyOffset (m : Keymap) (indent : Nat) : Nat → Nat
  | 0 => indent
  | col + 1 =>
    let w := columnWidth m col
    keyOffset m indent col + w.key + 1 + if w.chord = 0 then 0 else w.chord + 1

def chordOffset (m : Keymap) (indent col : Nat) : Nat :=
  keyOffset m indent col + (columnWidth m col).key + 1

variable {m : Keymap} {indent col col' n : Nat}

theorem chordOffset_le (m : Keymap) (indent col : Nat) :
    chordOffset m indent col ≤ keyOffset m indent (col + 1) :=
  Nat.le_add_right _ _

theorem keyOffset_mono (h : col ≤ col') : keyOffset m indent col ≤ keyOffset m indent col' := by
  induction h with
  | refl => exact Nat.le_refl _
  | @step col' _ ih =>
    have hnext := chordOffset_le m indent col'
    unfold chordOffset at hnext
    show _ ≤ keyOffset m indent (col' + 1)
    omega

theorem key_end_lt (h : n ≤ (columnWidth m col).key) :
    keyOffset m indent col + n < chordOffset m indent col := by
  unfold chordOffset
  omega

theorem chord_end_lt (h : n ≤ (columnWidth m col).chord) (hn : 0 < n) :
    chordOffset m indent col + n < keyOffset m indent (col + 1) := by
  rw [keyOffset, if_neg (by omega)]
  unfold chordOffset
  omega

theorem keyOffset_lt (h : col < col') : keyOffset m indent col < keyOffset m indent col' := by
  have hkey : keyOffset m indent col + 0 < chordOffset m indent col := key_end_lt (Nat.zero_le _)
  have hchord := chordOffset_le m indent col
  have hmono : keyOffset m indent (col + 1) ≤ keyOffset m indent col' := keyOffset_mono h
  omega

theorem chordOffset_lt (h : col < col') :
    chordOffset m indent col < chordOffset m indent col' := by
  have hchord := chordOffset_le m indent col
  have hmono : keyOffset m indent (col + 1) ≤ keyOffset m indent col' := keyOffset_mono h
  have hkey : keyOffset m indent col' + 0 < chordOffset m indent col' :=
    key_end_lt (Nat.zero_le _)
  omega

/-! ## 3. Lines -/

/-- The texts of a row of a layer with the places where they start: its keys at the offsets of their
columns, and its chords at the offsets of the columns of their left keys. -/
def rowTexts (m : Keymap) (indent : Nat) (l : Layer) (row : Nat) : List (Nat × List Char) :=
  (l.keys.filter (·.layout.row == row)).map
      (fun k => (keyOffset m indent k.physical.col, k.key.spelling)) ++
    (l.chords.filter (·.leftLayout.row == row)).filterMap fun c =>
      (chordColumn? m.layout c).map fun col => (chordOffset m indent col, c.chord.spelling)

/-- A line on which texts stand apart, between blanks. -/
structure ShowsTexts (cs : List Char) (texts : List (Nat × List Char)) : Prop where
  shown : ∀ t ∈ texts, t.2 ≠ [] ∧ t.2 <+: cs.drop t.1
  /-- There is a place between two texts. -/
  apart : texts.Pairwise fun t u => t.1 + t.2.length < u.1 ∨ u.1 + u.2.length < t.1
  blank : ∀ i c, cs[i]? = some c → (∀ t ∈ texts, i < t.1 ∨ t.1 + t.2.length ≤ i) → c = ' '

/-- The texts of the key and of the chord that a row has in a physical column. -/
def cellTexts (m : Keymap) (l : Layer) (row col : Nat) : List Char × List Char :=
  ((m.layout.layoutOf? ⟨col, row⟩).map (textsAt (l.keys.filter (·.layout.row == row))
    (l.chords.filter (·.leftLayout.row == row)))).getD ([], [])

/-- What a row has in a physical column, with a blank behind each cell. -/
def columnText (m : Keymap) (l : Layer) (row col : Nat) : List Char :=
  (columnCells (columnWidth m col) (cellTexts m l row col).1 (cellTexts m l row col).2).flatMap
    (· ++ [' '])

/-- A row as it is printed, up to the semicolon. -/
def rowLine (m : Keymap) (indent : Nat) (l : Layer) (row : Nat) : List Char :=
  List.replicate indent ' ' ++
    layerLine m.layout (columnWidths m) row (l.keys.filter (·.layout.row == row))
      (l.chords.filter (·.leftLayout.row == row))

/-- The blank behind the last cell goes with the blanks before it. -/
theorem trimmed_intercalate (cells : List (List Char)) :
    trimmed (List.intercalate [' '] cells) = trimmed (cells.flatMap (· ++ [' '])) := by
  have hblank (cs : List Char) : trimmed (cs ++ [' ']) = trimmed cs := by
    rw [trimmed_append]
    rfl
  induction cells with
  | nil => rfl
  | cons cell cells ih =>
    cases cells with
    | nil =>
      rw [List.flatMap_cons, List.flatMap_nil, List.append_nil, hblank]
      simp
    | cons next cells =>
      rw [List.intercalate_cons_cons, List.flatMap_cons, trimmed_append (cell ++ [' ']),
        trimmed_append (cell ++ [' ']), ih]

theorem layerLine_eq_columns (m : Keymap) (l : Layer) (row : Nat) :
    layerLine m.layout (columnWidths m) row (l.keys.filter (·.layout.row == row))
        (l.chords.filter (·.leftLayout.row == row)) =
      trimmed ((List.range m.layout.width).flatMap (columnText m l row)) := by
  have hcolumns : (columnWidths m).zipIdx =
      (List.range m.layout.width).map fun col => (columnWidth m col, col) := by
    apply List.ext_getElem
    · simp [columnWidths_eq_map]
    · simp [columnWidths_eq_map]
  rw [layerLine_eq, trimmed_intercalate, List.flatMap_map, lineTexts, hcolumns,
    List.flatMap_assoc, List.flatMap_map]
  congr 1
  apply List.flatMap_congr
  intro col _
  rw [columnText, columnCells_eq, List.flatMap_map]
  rfl

/-! ## 4. Columns of a row -/

theorem layoutOf?_of_key {l : Layer} (hl : l.PlacedOn m.layout) {k : PlacedKey} (hk : k ∈ l.keys) :
    m.layout.layoutOf? ⟨k.physical.col, k.layout.row⟩ = some k.layout := by
  have hat := hl.key k hk
  have hrow := (Layout.keyAt?_eq_some_iff.mp hat).2.1
  rw [← hrow]
  exact Layout.layoutOf?_eq_some_iff.mpr ⟨_, hat⟩

theorem layoutOf?_of_chord {c : PlacedChord} (hcol : chordColumn? m.layout c = some col) :
    m.layout.layoutOf? ⟨col, c.leftLayout.row⟩ = some c.leftLayout := by
  obtain ⟨⟨q, pos⟩, hat, rfl⟩ := Option.map_eq_some_iff.mp hcol
  have hrow := (Layout.keyAt?_eq_some_iff.mp hat).2.1
  rw [← hrow]
  exact Layout.layoutOf?_eq_some_iff.mpr ⟨_, hat⟩

theorem col_ne_of_layoutOf? {row : Nat} {p p' : LayoutPos} (hne : p ≠ p')
    (h : m.layout.layoutOf? ⟨col, row⟩ = some p) (h' : m.layout.layoutOf? ⟨col', row⟩ = some p') :
    col ≠ col' := by
  rintro rfl
  exact hne (Option.some.inj (h.symm.trans h'))

/-- Where nothing else lies, the text of what lies there is found. -/
theorem getD_find?_of_nodup {α : Type} {xs : List α} {place : α → LayoutPos}
    (hxs : (xs.map place).Nodup) (text : α → List Char) {x : α} (hx : x ∈ xs) :
    ((xs.find? fun y => decide (place y = place x)).map text).getD [] = text x := by
  cases hfind : xs.find? fun y => decide (place y = place x) with
  | none => exact absurd (decide_eq_true rfl) (List.find?_eq_none.mp hfind x hx)
  | some y =>
    have hsame := List.find?_some hfind
    rw [List.inj_on_of_nodup_map hxs (List.mem_of_find?_eq_some hfind) hx
      (of_decide_eq_true hsame)]
    rfl

theorem cellTexts_of_key {l : Layer} (hl : l.PlacedOn m.layout) {k : PlacedKey}
    (hk : k ∈ l.keys) : (cellTexts m l k.layout.row k.physical.col).1 = k.key.spelling := by
  have hnodup : ((l.keys.filter (·.layout.row == k.layout.row)).map (·.layout)).Nodup :=
    (List.filter_sublist.map _).nodup hl.keys_nodup
  rw [cellTexts, layoutOf?_of_key hl hk]
  exact getD_find?_of_nodup hnodup (·.key.spelling)
    (List.mem_filter.mpr ⟨hk, beq_self_eq_true k.layout.row⟩)

theorem cellTexts_of_chord {l : Layer} (hl : l.PlacedOn m.layout) {c : PlacedChord}
    (hc : c ∈ l.chords) (hcol : chordColumn? m.layout c = some col) :
    (cellTexts m l c.leftLayout.row col).2 = c.chord.spelling := by
  have hnodup : ((l.chords.filter (·.leftLayout.row == c.leftLayout.row)).map
      (·.leftLayout)).Nodup := (List.filter_sublist.map _).nodup hl.chords_nodup
  rw [cellTexts, layoutOf?_of_chord hcol]
  exact getD_find?_of_nodup hnodup (·.chord.spelling)
    (List.mem_filter.mpr ⟨hc, beq_self_eq_true c.leftLayout.row⟩)

/-- A column of a row has the text of a key there, or none. -/
theorem key_of_cellTexts {l : Layer} (hl : l.PlacedOn m.layout) (row col : Nat) :
    (cellTexts m l row col).1 = [] ∨ ∃ k ∈ l.keys, k.layout.row = row ∧ k.physical.col = col ∧
      (cellTexts m l row col).1 = k.key.spelling := by
  unfold cellTexts
  cases hp : m.layout.layoutOf? ⟨col, row⟩ with
  | none => exact .inl rfl
  | some p =>
    refine (getD_find? _ PlacedKey.layout (·.key.spelling) p).imp_right ?_
    rintro ⟨k, hfound, rfl, htext⟩
    obtain ⟨hk, hrow⟩ := List.mem_filter.mp hfound
    obtain ⟨pos, hat⟩ := Layout.layoutOf?_eq_some_iff.mp hp
    rw [hl.key k hk] at hat
    have hphysical := (Prod.mk.inj (Option.some.inj hat)).1
    exact ⟨k, hk, beq_iff_eq.mp hrow, congrArg PhysicalPos.col hphysical, htext⟩

theorem chord_of_cellTexts (m : Keymap) (l : Layer) (row col : Nat) :
    (cellTexts m l row col).2 = [] ∨ ∃ c ∈ l.chords, c.leftLayout.row = row ∧
      chordColumn? m.layout c = some col ∧ (cellTexts m l row col).2 = c.chord.spelling := by
  unfold cellTexts
  cases hp : m.layout.layoutOf? ⟨col, row⟩ with
  | none => exact .inl rfl
  | some p =>
    refine (getD_find? _ PlacedChord.leftLayout (·.chord.spelling) p).imp_right ?_
    rintro ⟨c, hfound, rfl, htext⟩
    obtain ⟨hc, hrow⟩ := List.mem_filter.mp hfound
    obtain ⟨pos, hat⟩ := Layout.layoutOf?_eq_some_iff.mp hp
    refine ⟨c, hc, beq_iff_eq.mp hrow, ?_, htext⟩
    rw [chordColumn?, hat]
    rfl

theorem cellTexts_le {l : Layer} (hl : l.PlacedOn m.layout) (hmem : l ∈ m.layers) (row col : Nat) :
    (cellTexts m l row col).1.length ≤ (columnWidth m col).key ∧
      (cellTexts m l row col).2.length ≤ (columnWidth m col).chord := by
  constructor
  · rcases key_of_cellTexts hl row col with h | ⟨k, hk, -, rfl, h⟩
    · rw [h]
      exact Nat.zero_le _
    · rw [h]
      exact key_le_width hmem hk
  · rcases chord_of_cellTexts m l row col with h | ⟨c, hc, -, hcol, h⟩
    · rw [h]
      exact Nat.zero_le _
    · rw [h]
      exact chord_le_width hmem hc hcol

/-- The blanks behind the key of a column reach to the offset of its chord, and the blanks behind
that one to the next column. -/
theorem columnText_eq (m : Keymap) (l : Layer) (row col : Nat) :
    columnText m l row col = (cellTexts m l row col).1 ++
      (List.replicate ((columnWidth m col).key - (cellTexts m l row col).1.length + 1) ' ' ++
        if (columnWidth m col).chord = 0 then [] else
          (cellTexts m l row col).2 ++ List.replicate
            ((columnWidth m col).chord - (cellTexts m l row col).2.length + 1) ' ') := by
  unfold columnText columnCells pad
  split <;> simp [List.replicate_succ', List.append_assoc]

theorem columnText_of_key {l : Layer} (hl : l.PlacedOn m.layout) {k : PlacedKey}
    (hk : k ∈ l.keys) : ∃ after,
      columnText m l k.layout.row k.physical.col = [] ++ k.key.spelling ++ after := by
  rw [columnText_eq, cellTexts_of_key hl hk]
  exact ⟨_, rfl⟩

theorem columnText_of_chord {l : Layer} (hl : l.PlacedOn m.layout) (hmem : l ∈ m.layers)
    {c : PlacedChord} (hc : c ∈ l.chords) (hcol : chordColumn? m.layout c = some col)
    (htext : c.chord.spelling ≠ []) : ∃ before after,
      columnText m l c.leftLayout.row col = before ++ c.chord.spelling ++ after ∧
        before.length = (columnWidth m col).key + 1 := by
  have hle := chord_le_width hmem hc hcol
  have hpos := List.length_pos_iff.mpr htext
  have hkey := (cellTexts_le hl hmem c.leftLayout.row col).1
  rw [columnText_eq, if_neg (by omega), cellTexts_of_chord hl hc hcol, ← List.append_assoc,
    ← List.append_assoc]
  refine ⟨_, _, rfl, ?_⟩
  rw [List.length_append, List.length_replicate]
  omega

theorem keyOffset_succ {l : Layer} (hl : l.PlacedOn m.layout) (hmem : l ∈ m.layers)
    (indent row col : Nat) :
    keyOffset m indent (col + 1) = keyOffset m indent col + (columnText m l row col).length := by
  obtain ⟨hkey, hchord⟩ := cellTexts_le hl hmem row col
  rw [columnText_eq, keyOffset]
  split
  · simp only [List.length_append, List.length_replicate, List.length_nil]
    omega
  · simp only [List.length_append, List.length_replicate]
    omega

/-- The columns before a column take the place up to its offset. -/
theorem keyOffset_eq_start {l : Layer} (hl : l.PlacedOn m.layout) (hmem : l ∈ m.layers)
    (indent row : Nat) (hcol : col ≤ m.layout.width) : keyOffset m indent col =
      indent + Concatenation.start (columnText m l row) (List.range m.layout.width) col := by
  induction col with
  | zero => rfl
  | succ col ih =>
    have hat : (List.range m.layout.width)[col]? = some col := List.getElem?_range hcol
    rw [keyOffset_succ hl hmem indent row col, Concatenation.start_succ hat,
      ih (Nat.le_of_succ_le hcol), Nat.add_assoc]

/-! ## 5. Rows -/

/-- A text of a column stands on the line behind what is before it in the column. -/
theorem isPrefix_drop_rowLine {l : Layer} (hl : l.PlacedOn m.layout) (hmem : l ∈ m.layers)
    (indent : Nat) {row : Nat} (hcol : col < m.layout.width) {before text after : List Char}
    (hcolumn : columnText m l row col = before ++ text ++ after) (htext : EndsTight text) :
    text <+: (rowLine m indent l row).drop (keyOffset m indent col + before.length) := by
  have hat : (List.range m.layout.width)[col]? = some col := List.getElem?_range hcol
  have hstart :=
    Concatenation.length_flatMap_take (columnText m l row) (List.range m.layout.width) col
  have hoffset := keyOffset_eq_start hl hmem indent row (Nat.le_of_lt hcol)
  rw [rowLine, layerLine_eq_columns, Concatenation.flatMap_eq_split hat, hcolumn]
  generalize (List.range m.layout.width).take col = columns at hstart ⊢
  generalize ((List.range m.layout.width).drop (col + 1)).flatMap (columnText m l row) = others
  have hsplit : columns.flatMap (columnText m l row) ++ (before ++ text ++ after) ++ others =
      columns.flatMap (columnText m l row) ++ before ++ text ++ (after ++ others) := by
    simp only [List.append_assoc]
  rw [hsplit, trimmed_behind _ htext, List.append_assoc, ← List.append_assoc, List.drop_left']
  · exact List.prefix_append _ _
  · rw [List.length_append, List.length_append, List.length_replicate, hstart, hoffset,
      Nat.add_assoc]

/-- Behind blanks a character that is not blank belongs to what follows them. -/
theorem getElem?_of_blanks {cs : List Char} {i : Nat} {c : Char}
    (h : (List.replicate n ' ' ++ cs)[i]? = some c) (hc : c ≠ ' ') :
    ∃ j, cs[j]? = some c ∧ i = n + j := by
  by_cases hi : i < n
  · rw [List.getElem?_append_left (by rwa [List.length_replicate]), List.getElem?_replicate,
      if_pos hi] at h
    exact absurd (Option.some.inj h).symm hc
  · rw [List.getElem?_append_right (by rw [List.length_replicate]; omega),
      List.length_replicate] at h
    exact ⟨i - n, h, by omega⟩

/-- A character of a line that is not blank belongs to a column. -/
theorem column_of_getElem? {l : Layer} (hl : l.PlacedOn m.layout) (hmem : l ∈ m.layers)
    {row i : Nat} {c : Char} (h : (rowLine m indent l row)[i]? = some c) (hc : c ≠ ' ') :
    ∃ col j, (columnText m l row col)[j]? = some c ∧ i = keyOffset m indent col + j := by
  obtain ⟨i', hi', rfl⟩ := getElem?_of_blanks h hc
  rw [layerLine_eq_columns] at hi'
  obtain ⟨rest, hrest⟩ :=
    trimmed_isPrefix ((List.range m.layout.width).flatMap (columnText m l row))
  have hall : ((List.range m.layout.width).flatMap (columnText m l row))[i']? = some c := by
    rw [← hrest, List.getElem?_append_left (List.getElem?_eq_some_iff.mp hi').1, hi']
  obtain ⟨r, col, j, hr, hj, rfl⟩ := Concatenation.exists_of_getElem?_flatMap hall
  obtain ⟨hlt, hcol⟩ := List.getElem?_eq_some_iff.mp hr
  rw [List.getElem_range] at hcol
  rw [List.length_range] at hlt
  subst hcol
  refine ⟨r, j, hj, ?_⟩
  rw [keyOffset_eq_start hl hmem indent row (Nat.le_of_lt hlt), Nat.add_assoc]

/-- A character of a column that is not blank belongs to its key or to its chord. -/
theorem text_of_getElem? {l : Layer} (hl : l.PlacedOn m.layout) (hmem : l ∈ m.layers)
    {row j : Nat} {c : Char} (h : (columnText m l row col)[j]? = some c) (hc : c ≠ ' ') :
    j < (cellTexts m l row col).1.length ∨ ∃ i < (cellTexts m l row col).2.length,
      j = (columnWidth m col).key + 1 + i := by
  obtain ⟨hkey, -⟩ := cellTexts_le hl hmem row col
  by_cases hj : j < (cellTexts m l row col).1.length
  · exact .inl hj
  right
  rw [columnText_eq, List.getElem?_append_right (Nat.le_of_not_lt hj)] at h
  obtain ⟨i, hi, hplace⟩ := getElem?_of_blanks h hc
  split at hi
  · cases hi
  · by_cases hchord : i < (cellTexts m l row col).2.length
    · exact ⟨i, hchord, by omega⟩
    · rw [List.getElem?_append_right (Nat.le_of_not_lt hchord), List.getElem?_replicate] at hi
      split at hi
      · exact absurd (Option.some.inj hi).symm hc
      · cases hi

theorem key_apart (h : col < col') (hn : n ≤ (columnWidth m col).key) :
    keyOffset m indent col + n < keyOffset m indent col' := by
  have hend : keyOffset m indent col + n < chordOffset m indent col := key_end_lt hn
  have hnext := chordOffset_le m indent col
  have hmono : keyOffset m indent (col + 1) ≤ keyOffset m indent col' := keyOffset_mono h
  omega

theorem chord_apart (h : col < col') (hn : n ≤ (columnWidth m col).chord) (hpos : 0 < n) :
    chordOffset m indent col + n < chordOffset m indent col' := by
  have hend : chordOffset m indent col + n < keyOffset m indent (col + 1) := chord_end_lt hn hpos
  have hmono : keyOffset m indent (col + 1) ≤ keyOffset m indent col' := keyOffset_mono h
  have hkey : keyOffset m indent col' + 0 < chordOffset m indent col' :=
    key_end_lt (Nat.zero_le _)
  omega

theorem rowTexts_apart {l : Layer} (hl : l.PlacedOn m.layout) (hmem : l ∈ m.layers)
    (hchords : ∀ c ∈ l.chords, EndsTight c.chord.spelling) (indent row : Nat) :
    (rowTexts m indent l row).Pairwise fun t u =>
      t.1 + t.2.length < u.1 ∨ u.1 + u.2.length < t.1 := by
  have hpos : ∀ c ∈ l.chords, 0 < c.chord.spelling.length := fun c hc =>
    List.length_pos_iff.mpr (hchords c hc).ne_nil
  unfold rowTexts
  refine List.pairwise_append.mpr ⟨?_, ?_, ?_⟩
  -- Keys of a row are in different columns.
  · apply List.pairwise_map.mpr
    apply List.pairwise_filter.mpr
    refine (List.pairwise_map.mp hl.keys_nodup).imp_of_mem fun {k k'} hk hk' hne hrow hrow' => ?_
    have hat := layoutOf?_of_key hl hk
    have hat' := layoutOf?_of_key hl hk'
    rw [beq_iff_eq.mp hrow] at hat
    rw [beq_iff_eq.mp hrow'] at hat'
    rcases Nat.lt_or_gt_of_ne (col_ne_of_layoutOf? hne hat hat') with hlt | hlt
    · exact .inl (key_apart hlt (key_le_width hmem hk))
    · exact .inr (key_apart hlt (key_le_width hmem hk'))
  · apply List.pairwise_filterMap.mpr
    apply List.pairwise_filter.mpr
    refine (List.pairwise_map.mp hl.chords_nodup).imp_of_mem fun {c c'} hc hc' hne hrow hrow' => ?_
    intro t ht t' ht'
    obtain ⟨col, hcol, rfl⟩ := Option.map_eq_some_iff.mp ht
    obtain ⟨col', hcol', rfl⟩ := Option.map_eq_some_iff.mp ht'
    have hat := layoutOf?_of_chord hcol
    have hat' := layoutOf?_of_chord hcol'
    rw [beq_iff_eq.mp hrow] at hat
    rw [beq_iff_eq.mp hrow'] at hat'
    rcases Nat.lt_or_gt_of_ne (col_ne_of_layoutOf? hne hat hat') with hlt | hlt
    · exact .inl (chord_apart hlt (chord_le_width hmem hc hcol) (hpos c hc))
    · exact .inr (chord_apart hlt (chord_le_width hmem hc' hcol') (hpos c' hc'))
  -- A key stands before the chords of its column, and behind those of the columns before it.
  · intro t ht t' ht'
    obtain ⟨k, hk, rfl⟩ := List.mem_map.mp ht
    obtain ⟨c, hc, hat⟩ := List.mem_filterMap.mp ht'
    obtain ⟨col, hcol, rfl⟩ := Option.map_eq_some_iff.mp hat
    have hk := (List.mem_filter.mp hk).1
    have hc := (List.mem_filter.mp hc).1
    rcases Nat.lt_or_ge col k.physical.col with hlt | hle
    · right
      have hend : chordOffset m indent col + c.chord.spelling.length <
          keyOffset m indent (col + 1) := chord_end_lt (chord_le_width hmem hc hcol) (hpos c hc)
      exact Nat.lt_of_lt_of_le hend (keyOffset_mono hlt)
    · left
      have hend : keyOffset m indent k.physical.col + k.key.spelling.length <
          chordOffset m indent k.physical.col := key_end_lt (key_le_width hmem hk)
      rcases Nat.eq_or_lt_of_le hle with heq | hlt
      · rwa [heq] at hend ⊢
      · exact Nat.lt_trans hend (chordOffset_lt hlt)

theorem rowLine_shows (hm : m.WellFormed) {l : Layer} (hmem : l ∈ m.layers)
    (hkeys : ∀ k ∈ l.keys, EndsTight k.key.spelling)
    (hchords : ∀ c ∈ l.chords, EndsTight c.chord.spelling) (indent row : Nat) :
    ShowsTexts (rowLine m indent l row) (rowTexts m indent l row) := by
  have hl := hm.placedOn hmem
  refine ⟨fun t ht => ?_, rowTexts_apart hl hmem hchords indent row, fun i ch hi hfree => ?_⟩
  · rcases List.mem_append.mp ht with ht | ht
    · -- A key comes first in its column.
      obtain ⟨k, hfound, rfl⟩ := List.mem_map.mp ht
      obtain ⟨hk, hrow⟩ := List.mem_filter.mp hfound
      have hcol := (hm.layout.bounds (hl.key k hk)).2.1
      obtain ⟨after, hcolumn⟩ := columnText_of_key hl hk
      rw [beq_iff_eq.mp hrow] at hcolumn
      exact ⟨(hkeys k hk).ne_nil, isPrefix_drop_rowLine hl hmem indent hcol hcolumn (hkeys k hk)⟩
    · -- A chord comes behind the room for the key on its left.
      obtain ⟨c, hfound, hat⟩ := List.mem_filterMap.mp ht
      obtain ⟨col, hchord, rfl⟩ := Option.map_eq_some_iff.mp hat
      obtain ⟨hc, hrow⟩ := List.mem_filter.mp hfound
      obtain ⟨⟨q, pos⟩, hkey, rfl⟩ := Option.map_eq_some_iff.mp hchord
      have hcol := (hm.layout.bounds hkey).2.1
      have htight := hchords c hc
      obtain ⟨before, after, hcolumn, hlength⟩ :=
        columnText_of_chord hl hmem hc hchord htight.ne_nil
      rw [beq_iff_eq.mp hrow] at hcolumn
      have hshown := isPrefix_drop_rowLine hl hmem indent hcol hcolumn htight
      rw [hlength, ← Nat.add_assoc] at hshown
      exact ⟨htight.ne_nil, hshown⟩
  · -- What is not blank belongs to a column, and there to its key or to its chord.
    by_contra hne
    obtain ⟨col, j, hj, rfl⟩ := column_of_getElem? hl hmem hi hne
    rcases text_of_getElem? hl hmem hj hne with hkey | ⟨j, hchord, rfl⟩
    · rcases key_of_cellTexts hl row col with hnone | ⟨k, hk, hrow, rfl, htext⟩
      · rw [hnone] at hkey
        cases hkey
      · rw [htext] at hkey
        have hplace : (keyOffset m indent k.physical.col, k.key.spelling) ∈
            rowTexts m indent l row := by
          refine List.mem_append_left _ (List.mem_map.mpr ⟨k, ?_, rfl⟩)
          exact List.mem_filter.mpr ⟨hk, beq_iff_eq.mpr hrow⟩
        have hout := hfree _ hplace
        dsimp only at hout
        omega
    · rcases chord_of_cellTexts m l row col with hnone | ⟨c, hc, hrow, hcol, htext⟩
      · rw [hnone] at hchord
        cases hchord
      · rw [htext] at hchord
        have hplace : (chordOffset m indent col, c.chord.spelling) ∈ rowTexts m indent l row := by
          refine List.mem_append_right _ (List.mem_filterMap.mpr ⟨c, ?_, ?_⟩)
          · exact List.mem_filter.mpr ⟨hc, beq_iff_eq.mpr hrow⟩
          · rw [hcol]
            rfl
        have hout := hfree _ hplace
        unfold chordOffset at hout
        dsimp only at hout
        omega

/-! ## 6. Keymaps -/

/-- The items of rows that were read do not end with a blank. -/
theorem endsTight_of_read {source : Text} {defaults : List DefaultOption}
    (hread : Keymap.read source defaults = .ok m) : ∀ b ∈ m.description.layers,
      ∀ node ∈ b.rows, ∀ item ∈ node.items, EndsTight item.spelling := by
  obtain ⟨d, hparse, hresolve⟩ := bind_eq_ok_iff.mp hread
  obtain ⟨rfl, -, -⟩ := Keymap.resolve_eq_ok hresolve
  obtain ⟨f, rows, hf, -, htree⟩ := Parser.description_sound hparse
  rw [Grammar.File.tree_eq] at htree
  have hlayers : m.description.layers.map (LayerBlock.forget id) =
      (f.filterMap Grammar.Block.layer?).map fun x => Grammar.layerTree x.1 x.2 :=
    congrArg Description.layers htree
  intro b hb node hnode item hitem
  -- From the block to its derivation, then to the row and to the item in it.
  have hblock := List.mem_map_of_mem (f := LayerBlock.forget id) hb
  rw [hlayers] at hblock
  obtain ⟨x, hx, hblock⟩ := List.mem_map.mp hblock
  have hrow := List.mem_map_of_mem (f := LayerRow.forget id) hnode
  rw [show b.rows.map (LayerRow.forget id) = _ from congrArg LayerBlock.rows hblock.symm] at hrow
  obtain ⟨r, hr, hrow⟩ := List.mem_map.mp hrow
  have hmem := List.mem_map_of_mem (f := RowItem.forget id) hitem
  rw [show node.items.map (RowItem.forget id) = _ from congrArg LayerRow.items hrow.symm] at hmem
  obtain ⟨i, hi, hmem⟩ := List.mem_map.mp hmem
  have hspelling : i.tree.spelling = item.spelling := by
    rw [hmem]
    exact RowItem.spelling_forget (fun _ => rfl) item
  rw [← hspelling]
  have hin : Grammar.Block.layer x.1 x.2 ∈ f := mem_of_mem_filterMap
    (fun x => .layer x.1 x.2) (by rintro (_ | _ | _ | _) x ⟨⟩; rfl) hx
  apply i.endsTight
  intro kind hkind
  refine spellable_of_mem_file hf hin kind ?_
  refine List.mem_cons_of_mem _ (List.mem_cons_of_mem _ (mem_braced hr ?_))
  exact List.mem_append_left _ (List.mem_flatMap.mpr ⟨i, hi, hkind⟩)

theorem endsTight_of_layer {source : Text} {defaults : List DefaultOption}
    (hread : Keymap.read source defaults = .ok m) {l : Layer} (hl : l ∈ m.layers) :
    (∀ k ∈ l.keys, EndsTight k.key.spelling) ∧ ∀ c ∈ l.chords, EndsTight c.chord.spelling := by
  obtain ⟨n, hn⟩ := List.getElem?_of_mem hl
  obtain ⟨b, hb, hresolve⟩ := (Keymap.wellFormed_of_read hread).exists_block hn
  have htight := endsTight_of_read hread b (List.mem_of_getElem? hb)
  obtain ⟨hkeys, hchords⟩ := (Layer.resolve_eq_ok_iff.mp hresolve).2.2.split
  constructor
  · intro k hk
    have hmem := List.mem_map_of_mem (f := (·.key)) hk
    rw [hkeys] at hmem
    obtain ⟨node, hnode, hmem⟩ := List.mem_flatMap.mp hmem
    obtain ⟨item, hitem, hkey⟩ := List.mem_filterMap.mp hmem
    cases item with
    | key key =>
      obtain rfl := Option.some.inj hkey
      exact htight node hnode _ hitem
    | chord => cases hkey
  · intro c hc
    have hmem := List.mem_map_of_mem (f := (·.chord)) hc
    rw [hchords] at hmem
    obtain ⟨node, hnode, hmem⟩ := List.mem_flatMap.mp hmem
    obtain ⟨item, hitem, hchord⟩ := List.mem_filterMap.mp hmem
    cases item with
    | key => cases hchord
    | chord chord =>
      obtain rfl := Option.some.inj hchord
      exact htight node hnode _ hitem

def printedLayer (m : Keymap) (indent : Nat) (l : Layer) : List Char :=
  "layer ".toList ++ l.name.toList ++ " \x7b\n".toList ++
    (List.range l.rowCount).flatMap (fun row => rowLine m indent l row ++ ";\n".toList) ++
    "\x7d\n".toList

/-- A canonical form with aligned layers. -/
structure AlignsLayers (m : Keymap) (indent : Nat) (out : List Char) : Prop where
  /-- The layers are printed behind the layout, the options and the key declarations. -/
  printed : ∃ front : List (List Char),
    front.length = 1 + m.description.options.length + m.description.keys.length ∧
      out = List.intercalate ['\n'] (front ++ m.layers.map (printedLayer m indent))
  rows : ∀ l ∈ m.layers, ∀ row < l.rowCount,
    ShowsTexts (rowLine m indent l row) (rowTexts m indent l row)
  /-- A chord counts to the column of the key on its left. -/
  leftKey : ∀ l ∈ m.layers, ∀ c ∈ l.chords, ∃ k ∈ l.keys,
    k.layout = c.leftLayout ∧ chordColumn? m.layout c = some k.physical.col
  keyWidth : ∀ col, IsWidest (columnWidth m col).key (columnKeys m col)
  chordWidth : ∀ col, IsWidest (columnWidth m col).chord (columnChords m col)
  keysGrow : ∀ col col', col < col' → keyOffset m indent col < keyOffset m indent col'
  chordsGrow : ∀ col col', col < col' → chordOffset m indent col < chordOffset m indent col'

theorem layerText_eq_printedLayer (m : Keymap) (indent : Nat) (l : Layer) :
    layerText (List.replicate indent ' ') m l = printedLayer m indent l := by
  unfold layerText block printedLayer layerLines
  rw [List.flatMap_map]
  rfl

theorem blocks_eq_append (m : Keymap) (indent : Nat) : ∃ front : List (List Char),
    front.length = 1 + m.description.options.length + m.description.keys.length ∧
      blocks m (List.replicate indent ' ') = front ++ m.layers.map (printedLayer m indent) := by
  have hlayers : m.layers.map (layerText (List.replicate indent ' ') m) =
      m.layers.map (printedLayer m indent) :=
    List.map_congr_left fun l _ => layerText_eq_printedLayer m indent l
  refine ⟨[block (List.replicate indent ' ') "layout".toList
      (m.description.layout.rows.map layoutLine)] ++
    m.description.options.map (optionsText (List.replicate indent ' ')) ++
    m.description.keys.map (declarationText (List.replicate indent ' ')), ?_, ?_⟩
  · simp only [List.length_append, List.length_map, List.length_singleton]
  · rw [← hlayers]
    rfl

/-- The layers of a canonical form are aligned, behind the indent that the options say. -/
theorem format_aligned {source : Text} {defaults : List DefaultOption} {out : List Char}
    (hread : Keymap.read source defaults = .ok m) (hformat : format m = .ok out) :
    ∃ indent : Nat, m.options.number .formatter "indent" defaultIndent = .ok (indent : Int) ∧
      AlignsLayers m indent out := by
  have hm := Keymap.wellFormed_of_read hread
  obtain ⟨number, hnumber, hformat⟩ := bind_eq_ok_iff.mp hformat
  obtain rfl := pure_eq_ok_iff.mp hformat
  obtain ⟨indent, rfl⟩ :=
    Int.eq_ofNat_of_zero_le (OptionTable.number_nonneg (by decide) hnumber)
  refine ⟨indent, hnumber, ?_⟩
  refine {
    printed := ?_
    rows := fun l hl row _ => ?_
    leftKey := fun l hl c hc => ?_
    keyWidth := fun col => isWidest_largest _
    chordWidth := fun col => isWidest_largest _
    keysGrow := fun col col' h => keyOffset_lt h
    chordsGrow := fun col col' h => chordOffset_lt h }
  · obtain ⟨front, hfront, hblocks⟩ := blocks_eq_append m indent
    refine ⟨front, hfront, ?_⟩
    rw [← hblocks]
    rfl
  · obtain ⟨hkeys, hchords⟩ := endsTight_of_layer hread hl
    exact rowLine_shows hm hl hkeys hchords indent row
  · obtain ⟨n, hn⟩ := List.getElem?_of_mem hl
    obtain ⟨b, -, hresolve⟩ := hm.exists_block hn
    obtain ⟨k, hk, -, -, -, hplace, -⟩ := (Layer.lays_of_resolve hm.layout hresolve).exists_between
      (Layer.resolve_succeeds_iff.mp ⟨l, hresolve⟩) hc
    refine ⟨k, hk, hplace, ?_⟩
    rw [chordColumn?, ← hplace, (hm.placedOn hl).key k hk]
    rfl

/-- A chord in the row below a spacer, and a layer with nothing but a blank key. -/
def chordBelowSpacer : Text :=
  Text.ofString ("options formatter \x7b indent: \"2\"; \x7d layout \x7b 1k 1s 1k; 3k; \x7d" ++
    "layer a \x7b '1' '2'; '1' >tab< f10 '3'; \x7d layer b \x7b ' '; \x7d")

/-- The key below the spacer starts behind the room for the chord, on all rows. -/
theorem format_aligned_chordBelowSpacer : ∃ m out, Keymap.read chordBelowSpacer [] = .ok m ∧
    format m = .ok out ∧ AlignsLayers m 2 out ∧
    (List.range 3).map (keyOffset m 2) = [2, 12, 16] ∧ chordOffset m 2 0 = 6 ∧
    (m.layers.map fun l => (List.range l.rowCount).map fun row =>
      String.ofList (rowLine m 2 l row)) =
        [["  '1'           '2'", "  '1' >tab< f10 '3'"], ["  ' '"]] := by
  have hrun : ((Keymap.read chordBelowSpacer []).toOption.bind fun m =>
      (format m).toOption.map fun out =>
        ((m.options.number .formatter "indent" defaultIndent).toOption,
          (List.range 3).map (keyOffset m 2), chordOffset m 2 0,
          m.layers.map fun l => (List.range l.rowCount).map fun row =>
            String.ofList (rowLine m 2 l row))) =
      some (some 2, [2, 12, 16], 6,
        [["  '1'           '2'", "  '1' >tab< f10 '3'"], ["  ' '"]]) := by
    decide +kernel
  obtain ⟨m, hm, hrun⟩ := Option.bind_eq_some_iff.mp hrun
  obtain ⟨out, hout, hrun⟩ := Option.map_eq_some_iff.mp hrun
  simp only [Prod.mk.injEq] at hrun
  obtain ⟨hnumber, hoffsets⟩ := hrun
  have hread := toOption_eq_some_iff.mp hm
  have hformat := toOption_eq_some_iff.mp hout
  obtain ⟨indent, hindent, haligns⟩ := format_aligned hread hformat
  rw [hindent] at hnumber
  obtain rfl : indent = 2 := Int.ofNat.inj (Option.some.inj hnumber)
  exact ⟨m, out, hread, hformat, haligns, hoffsets⟩

end Keyplan.Format
