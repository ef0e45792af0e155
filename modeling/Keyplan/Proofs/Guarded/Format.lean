import Keyplan.Proofs.Format.Reading
import Keyplan.Proofs.Guarded
import Keyplan.Proofs.OptionTable

/-!
# Guarded formatting — writing the canonical form never misses

The widths of the physical columns are found by going through all keys and chords and widening the
column each of them stands in. Keys and the left keys of chords stand on the layout, so these
columns are there. Blanks are written as often as a number says, which is never negative: texts are
padded only when they are too short, and a negative indent is refused.
-/

namespace Keyplan.Guarded

open Format

/-! ## Definitions -/

def widenKey (widths : List ColumnWidth) (k : PlacedKey) : Guarded (List ColumnWidth) :=
  update widths k.physical.col fun w => { w with key := max w.key k.key.spelling.length }

/-- Widens the column of a chord. A chord whose left key is not on the layout counts to the first
column. -/
def widenChord (layout : Layout) (widths : List ColumnWidth) (c : PlacedChord) :
    Guarded (List ColumnWidth) :=
  update widths ((chordColumn? layout c).getD 0) fun w =>
    { w with chord := max w.chord c.chord.spelling.length }

def widenLayer (layout : Layout) (widths : List ColumnWidth) (l : Layer) :
    Guarded (List ColumnWidth) := do
  let widths ← l.keys.foldlM widenKey widths
  l.chords.foldlM (widenChord layout) widths

def columnWidths (m : Keymap) : Guarded (List ColumnWidth) :=
  m.layers.foldlM (widenLayer m.layout) (List.replicate m.layout.width ⟨0, 0⟩)

def pad (cs : List Char) (width : Nat) : Guarded (List Char) :=
  if width ≤ cs.length then return cs
  else do return cs ++ (← blanks (width - cs.length))

def layerLine (layout : Layout) (widths : List ColumnWidth) (row : Nat) (keys : List PlacedKey)
    (chords : List PlacedChord) : Guarded (List Char) := do
  let cells ← (lineTexts layout widths row keys chords).mapM fun p => pad p.1 p.2
  return trimmed (List.intercalate [' '] cells)

def layerText (indent : List Char) (layout : Layout) (widths : List ColumnWidth) (l : Layer) :
    Guarded (List Char) := do
  let lines ← (List.range l.rowCount).mapM fun row =>
    layerLine layout widths row (l.keys.filter (·.layout.row == row))
      (l.chords.filter (·.leftLayout.row == row))
  return Format.block indent ("layer ".toList ++ l.name.toList) lines

def format (m : Keymap) : Guarded (List Char) := do
  let number ← plain (m.options.number .formatter "indent" defaultIndent)
  let indent ← blanks number
  let widths ← columnWidths m
  let d := m.description
  let layers ← m.layers.mapM (layerText indent m.layout widths)
  return List.intercalate ['\n']
    ([Format.block indent "layout".toList (d.layout.rows.map layoutLine)]
      ++ d.options.map (optionsText indent) ++ d.keys.map (declarationText indent) ++ layers)

/-! ## Column widths -/

section

variable {κ : Type} [BEq κ]

/-- The largest number entered under a column. -/
def widest (entries : List (κ × Nat)) (col : κ) : Nat :=
  largest ((entries.filter (·.1 == col)).map (·.2))

variable [LawfulBEq κ]

theorem widest_append_self (entries : List (κ × Nat)) (col : κ) (n : Nat) :
    widest (entries ++ [(col, n)]) col = max (widest entries col) n := by
  simp [widest, largest, List.filter_append]

theorem widest_append_of_ne (entries : List (κ × Nat)) {col col' : κ} (h : col ≠ col') (n : Nat) :
    widest (entries ++ [(col, n)]) col' = widest entries col' := by
  simp [widest, List.filter_append, h]

end

/-- The widths of columns with the given keys and chords in them. -/
def widthsOf (width : Nat) (keys : List (Nat × Nat)) (chords : List (Option Nat × Nat)) :
    List ColumnWidth :=
  (List.range width).map fun col => ⟨widest keys col, widest chords (some col)⟩

def keyEntries (l : Layer) : List (Nat × Nat) :=
  l.keys.map fun k => (k.physical.col, k.key.spelling.length)

def chordEntries (layout : Layout) (l : Layer) : List (Option Nat × Nat) :=
  l.chords.map fun c => (chordColumn? layout c, c.chord.spelling.length)

theorem widthsOf_layers (m : Keymap) : Format.columnWidths m = widthsOf m.layout.width
    (m.layers.flatMap keyEntries) (m.layers.flatMap (chordEntries m.layout)) :=
  rfl

theorem update_map_range {α : Type} {n i : Nat} (hi : i < n) {f f' : Nat → α} {g : α → α}
    (hself : f' i = g (f i)) (hother : ∀ j, i ≠ j → f' j = f j) :
    update ((List.range n).map f) i g = pure ((List.range n).map f') := by
  have hitem : ((List.range n).map f)[i]? = some (f i) := by
    rw [List.getElem?_map, List.getElem?_range hi]
    rfl
  rw [update_eq hitem]
  congr 1
  refine List.ext_getElem (by simp) fun j hj hj' => ?_
  rw [List.getElem_set, List.getElem_map, List.getElem_map, List.getElem_range]
  -- The column itself, or any other one.
  by_cases hij : i = j
  · rw [if_pos hij, ← hij, hself]
  · rw [if_neg hij, hother j hij]

theorem widenKey_eq {width : Nat} (keys : List (Nat × Nat)) (chords : List (Option Nat × Nat))
    {k : PlacedKey} (hk : k.physical.col < width) :
    widenKey (widthsOf width keys chords) k =
      pure (widthsOf width (keys ++ [(k.physical.col, k.key.spelling.length)]) chords) := by
  refine update_map_range hk ?_ fun col hcol => ?_
  · rw [widest_append_self]
  · rw [widest_append_of_ne keys hcol]

theorem widenChord_eq {layout : Layout} {width col : Nat} (keys : List (Nat × Nat))
    (chords : List (Option Nat × Nat)) {c : PlacedChord} (hc : chordColumn? layout c = some col)
    (hcol : col < width) :
    widenChord layout (widthsOf width keys chords) c =
      pure (widthsOf width keys
        (chords ++ [(chordColumn? layout c, c.chord.spelling.length)])) := by
  unfold widenChord
  rw [hc, Option.getD_some]
  refine update_map_range hcol ?_ fun col' hne => ?_
  · rw [widest_append_self]
  · rw [widest_append_of_ne chords fun e => hne (Option.some.inj e)]

/-- A loop that enters one item after the other has entered them all. -/
theorem foldlM_entries {α σ ι : Type} (state : List σ → α) {step : α → ι → Guarded α}
    {entry : ι → σ} (xs : List ι)
    (hstep : ∀ x ∈ xs, ∀ entered, step (state entered) x = pure (state (entered ++ [entry x])))
    (entered : List σ) :
    xs.foldlM step (state entered) = pure (state (entered ++ xs.map entry)) := by
  induction xs generalizing entered with
  | nil => rw [List.map_nil, List.append_nil]; rfl
  | cons x xs ih =>
    rw [List.foldlM_cons, hstep x List.mem_cons_self, pure_bind,
      ih fun y hy => hstep y (List.mem_cons_of_mem x hy), List.append_assoc]
    rfl

theorem widenLayer_eq {layout : Layout} (hlayout : layout.WellFormed) {l : Layer}
    (hl : l.PlacedOn layout) (keys : List (Nat × Nat)) (chords : List (Option Nat × Nat)) :
    widenLayer layout (widthsOf layout.width keys chords) l =
      pure (widthsOf layout.width (keys ++ keyEntries l) (chords ++ chordEntries layout l)) := by
  -- Every key, and the left key of every chord, has a physical cell of the layout.
  have hkeys : ∀ k ∈ l.keys, k.physical.col < layout.width := fun k hk =>
    (hlayout.bounds (hl.key k hk)).2.1
  have hchords : ∀ c ∈ l.chords, ∃ col, chordColumn? layout c = some col ∧ col < layout.width := by
    intro c hc
    obtain ⟨physical, hleft⟩ := hl.left c hc
    exact ⟨physical.col, by rw [chordColumn?, hleft]; rfl, (hlayout.bounds hleft).2.1⟩
  unfold widenLayer
  rw [foldlM_entries (fun keys => widthsOf layout.width keys chords) l.keys
    (fun k hk keys => widenKey_eq keys chords (hkeys k hk)) keys, pure_bind]
  refine foldlM_entries (fun chords => widthsOf layout.width (keys ++ keyEntries l) chords) l.chords
    (fun c hc chords => ?_) chords
  obtain ⟨col, hcol, hlt⟩ := hchords c hc
  exact widenChord_eq _ chords hcol hlt

theorem columnWidths_eq {m : Keymap} (hm : m.WellFormed) :
    columnWidths m = pure (Format.columnWidths m) := by
  -- Layer by layer, on top of the keys and chords that were entered before.
  have hlayers : ∀ (layers : List Layer) (keys : List (Nat × Nat))
      (chords : List (Option Nat × Nat)), (∀ l ∈ layers, l.PlacedOn m.layout) →
      layers.foldlM (widenLayer m.layout) (widthsOf m.layout.width keys chords) =
        pure (widthsOf m.layout.width (keys ++ layers.flatMap keyEntries)
          (chords ++ layers.flatMap (chordEntries m.layout))) := by
    intro layers
    induction layers with
    | nil =>
      intro keys chords _
      rw [List.flatMap_nil, List.flatMap_nil, List.append_nil, List.append_nil]
      rfl
    | cons l layers ih =>
      intro keys chords hplaced
      obtain ⟨hl, hrest⟩ := List.forall_mem_cons.mp hplaced
      rw [List.foldlM_cons, widenLayer_eq hm.layout hl, pure_bind, ih _ _ hrest,
        List.flatMap_cons, List.flatMap_cons, List.append_assoc, List.append_assoc]
  have hblank : List.replicate m.layout.width (ColumnWidth.mk 0 0) =
      widthsOf m.layout.width [] [] := by
    show _ = (List.range m.layout.width).map fun _ => ColumnWidth.mk 0 0
    rw [List.map_const', List.length_range]
  unfold columnWidths
  rw [hblank, hlayers m.layers [] [] fun l hl => hm.placedOn hl, widthsOf_layers]
  rfl

/-! ## Lines -/

theorem pad_eq (cs : List Char) (width : Nat) : pad cs width = pure (Format.pad cs width) := by
  unfold pad Format.pad
  -- A text that is long enough is left as it is, so the count of blanks is not negative.
  by_cases hlong : width ≤ cs.length
  · rw [if_pos hlong, Nat.sub_eq_zero_of_le hlong, List.replicate_zero, List.append_nil]
  · have hcount : ((width : Int) - cs.length).toNat = width - cs.length := by omega
    rw [if_neg hlong, blanks_eq (by omega), pure_bind, hcount]

theorem layerLine_eq (layout : Layout) (widths : List ColumnWidth) (row : Nat)
    (keys : List PlacedKey) (chords : List PlacedChord) :
    layerLine layout widths row keys chords =
      pure (Format.layerLine layout widths row keys chords) := by
  unfold layerLine
  rw [mapM_eq_pure fun p _ => pad_eq p.1 p.2, pure_bind, Format.layerLine_eq]

theorem layerText_eq (indent : List Char) (layout : Layout) (widths : List ColumnWidth)
    (l : Layer) :
    layerText indent layout widths l = pure (Format.block indent ("layer ".toList ++ l.name.toList)
      (layerLines layout widths l)) := by
  unfold layerText
  rw [mapM_eq_pure fun row _ => layerLine_eq layout widths row _ _, pure_bind]
  rfl

theorem format_follows {m : Keymap} (hm : m.WellFormed) :
    Follows Eq (format m) (Format.format m) := by
  unfold format Format.format
  refine (Follows.plain (m.options.number .formatter "indent" defaultIndent)).bind
    fun number _ hnumber heq => ?_
  subst heq
  have hindent : 0 ≤ number := OptionTable.number_nonneg (by decide) hnumber
  rw [blanks_eq hindent, pure_bind, columnWidths_eq hm, pure_bind]
  dsimp only
  rw [mapM_eq_pure fun l _ => layerText_eq _ _ _ l, pure_bind]
  exact .ok rfl

end Keyplan.Guarded
