import Keyplan.Diagram
import Keyplan.Proofs.Guarded.Grid
import Keyplan.Proofs.Keymap

/-!
# Guarded diagrams — drawing a keymap never misses

The labels of a layer are written into blank rows, one cell for each key of the layout. Every key of
a layer lies on a key of the layout and so hits a cell. A chord that was drawn before looks at the
last layer of its combination: there is one, since a combination starts with the layer that drew it
first.
-/

namespace Keyplan.Guarded

open Diagram

/-! ## Labels -/

/-- Rows without labels, as long as the rows of the layout. -/
def blankRows (layout : Layout) : Guarded (List (List KeyLabel)) := do
  let counts ← (List.range layout.height).mapM fun row : Nat => item layout.keyCounts row
  return counts.map fun n => List.replicate n {}

def labelKey (m : Keymap) (rows : List (List KeyLabel)) (k : PlacedKey) :
    Guarded (List (List KeyLabel)) := do
  let label ← plain (keyLabel m k.key)
  writeCell rows k.layout.row k.layout.col label

def labelLayer (m : Keymap) (l : Layer) : Guarded LayerLabels := do
  let rows ← blankRows m.layout
  let rows ← l.keys.foldlM (labelKey m) rows
  return { name := l.name, rows := rows }

theorem blankRows_eq (layout : Layout) :
    blankRows layout = pure (shown layout.keyCounts LayoutPos.mk {} []) := by
  unfold blankRows
  rw [← Layout.length_keyCounts, mapM_item (Nat.le_refl _), pure_bind, List.take_length, shown_nil]

theorem shown_labels (layout : Layout) (labels : OrderedMap LayoutPos KeyLabel) :
    shown layout.keyCounts LayoutPos.mk {} labels = labelRows layout labels := by
  unfold shown labelRows
  refine List.map_congr_left fun x _ => ?_
  have hinRow : ∀ col, OrderedMap.get? (labels.filter fun e => e.1.row == x.2) ⟨col, x.2⟩ =
      labels.get? ⟨col, x.2⟩ := fun col =>
    OrderedMap.get?_filter (p := fun p : LayoutPos => p.row == x.2) (beq_self_eq_true x.2)
  simp only [hinRow]

/-- The key at a layout position has a cell in the rows of the layout. -/
theorem cell_of_keyAt? {layout : Layout} {p : LayoutPos} {found : PhysicalPos × MatrixPos}
    (h : layout.keyAt? p = some found) : ∃ n, layout.keyCounts[p.row]? = some n ∧ p.col < n := by
  obtain ⟨⟨slots, hslots, hkey⟩, -, -⟩ := Layout.keyAt?_eq_some_iff.mp h
  refine ⟨(Layout.rowKeys slots).length, ?_, (List.getElem?_eq_some_iff.mp hkey).1⟩
  rw [Layout.keyCounts, List.getElem?_map, hslots]
  rfl

/-- Labels are written one after the other, each into a cell of its own. -/
theorem labelKeys_follows (m : Keymap) (keys : List PlacedKey)
    (written : OrderedMap LayoutPos KeyLabel)
    (hkeys : ∀ k ∈ keys, ∃ n, m.layout.keyCounts[k.layout.row]? = some n ∧ k.layout.col < n)
    (hnodup : (OrderedMap.keys written ++ keys.map (·.layout)).Nodup) :
    Follows (fun labels rows =>
        rows = shown m.layout.keyCounts LayoutPos.mk {} (written ++ labels))
      (keys.foldlM (labelKey m) (shown m.layout.keyCounts LayoutPos.mk {} written))
      (keys.mapM fun k => do return (k.layout, ← keyLabel m k.key)) := by
  have hplace : ∀ {c r c' r'}, LayoutPos.mk c r = ⟨c', r'⟩ → c = c' ∧ r = r' :=
    fun e => LayoutPos.mk.inj e
  -- What is written already is part of the statement: a new cell has to differ from it.
  induction keys generalizing written with
  | nil => exact .ok (congrArg _ (List.append_nil written).symm)
  | cons k keys ih =>
    obtain ⟨n, hrow, hcol⟩ := hkeys k List.mem_cons_self
    -- No other key of the layer lies on this one's place.
    have hfresh : k.layout ∉ OrderedMap.keys written := fun hmem =>
      (List.nodup_append.mp hnodup).2.2 k.layout hmem k.layout List.mem_cons_self rfl
    rw [List.foldlM_cons, List.mapM_cons]
    unfold labelKey
    rw [bind_assoc, bind_assoc]
    refine (Follows.plain (keyLabel m k.key)).bind fun label _ _ heq => ?_
    subst heq
    rw [writeCell_shown hplace hrow hcol hfresh, pure_bind, pure_bind]
    have hnodup' : (OrderedMap.keys (written ++ [(k.layout, label)]) ++
        keys.map (·.layout)).Nodup := by
      rw [OrderedMap.keys, List.map_append, List.append_assoc]
      exact hnodup
    refine (ih (written ++ [(k.layout, label)])
      (fun x hx => hkeys x (List.mem_cons_of_mem k hx)) hnodup').bind_ok fun labels rows hrows => ?_
    exact ⟨(k.layout, label) :: labels, rfl, by rw [hrows, List.append_assoc]; rfl⟩

theorem labelLayer_follows (m : Keymap) {l : Layer} (hl : l.PlacedOn m.layout) :
    Follows Eq (labelLayer m l) (Diagram.labelLayer m l) := by
  unfold labelLayer Diagram.labelLayer
  rw [blankRows_eq, pure_bind]
  refine (labelKeys_follows m l.keys [] (fun k hk => cell_of_keyAt? (hl.key k hk))
    hl.keys_nodup).bind fun labels rows _ hrows => ?_
  exact .ok (by rw [hrows, List.nil_append, shown_labels])

/-! ## Combinations -/

/-- The number of a layout position: the keys of all rows above it are counted. -/
def keyIndex (layout : Layout) (p : LayoutPos) : Guarded Int := do
  let counts ← (List.range (min p.row layout.keyCounts.length)).mapM fun row : Nat =>
    item layout.keyCounts row
  let above : Nat := counts.foldl (· + ·) 0
  return above + p.col

/-- Adds a layer behind the last layer of a combination, unless it is that one. -/
def addLayer (c : Combo) (name : String) : Guarded Combo := do
  let last ← item c.layers (c.layers.length - 1)
  return if last = name then c else { c with layers := c.layers ++ [name] }

/-- Adds a chord of layer `name` under a label. -/
def addCombo (m : Keymap) (name : String) (c : PlacedChord) (label : KeyLabel) :
    List Combo → Guarded (List Combo)
  | [] => do
    let firstKey ← keyIndex m.layout c.leftLayout
    return [{
      firstKey := firstKey
      left := c.left
      right := c.right
      label := label
      layers := [name] }]
  | d :: rest =>
    if d.left == c.left && d.right == c.right && d.label == label then do
      return (← addLayer d name) :: rest
    else do
      return d :: (← addCombo m name c label rest)

def addChord (m : Keymap) (name : String) (combos : List Combo) (c : PlacedChord) :
    Guarded (List Combo) := do
  let label ← plain (keyLabel m c.chord.key)
  addCombo m name c label combos

theorem keyIndex_eq (layout : Layout) (p : LayoutPos) :
    keyIndex layout p = pure (layout.keyIndex p.col p.row) := by
  have hcount : (layout.keyCounts.take p.row).foldl (· + ·) 0 =
      (Layout.keys ⟨layout.rows.take p.row⟩).length := by
    rw [Layout.keys, List.length_flatMap, List.sum_eq_foldl_nat, Layout.keyCounts, List.map_take]
  -- Rows below the layout are not counted, and there are none.
  have htake : layout.keyCounts.take (min p.row layout.keyCounts.length) =
      layout.keyCounts.take p.row := by
    rw [← List.take_take, List.take_length]
  unfold keyIndex Layout.keyIndex
  rw [mapM_item (Nat.min_le_right _ _), pure_bind, htake, hcount, Int.toNat_natCast]

/-- Every combination has a layer. -/
def Layered (combos : List Combo) : Prop :=
  ∀ c ∈ combos, c.layers ≠ []

theorem addLayer_eq {c : Combo} (hc : c.layers ≠ []) (name : String) :
    addLayer c name = pure (c.addLayer name) := by
  have hlast : c.layers.getLast? = some (c.layers.getLast hc) := List.getLast?_eq_some_getLast hc
  unfold addLayer Combo.addLayer
  rw [item_last hlast, pure_bind, hlast]
  simp only [Option.some.injEq]

theorem layers_addLayer {c : Combo} (hc : c.layers ≠ []) (name : String) :
    (c.addLayer name).layers ≠ [] := by
  unfold Combo.addLayer
  by_cases hlast : c.layers.getLast? = some name
  · rwa [if_pos hlast]
  · rw [if_neg hlast]
    exact List.append_ne_nil_of_right_ne_nil _ (List.cons_ne_nil name [])

theorem addCombo_eq (m : Keymap) (name : String) (c : PlacedChord) (label : KeyLabel)
    {combos : List Combo} (hcombos : Layered combos) :
    addCombo m name c label combos = pure (Diagram.addCombo name
      { firstKey := m.layout.keyIndex c.leftLayout.col c.leftLayout.row
        left := c.left
        right := c.right
        label := label
        layers := [name] } combos) := by
  induction combos with
  | nil =>
    rw [addCombo, keyIndex_eq, pure_bind]
    rfl
  | cons d combos ih =>
    rw [addCombo, Diagram.addCombo, Combo.matches]
    -- The number of the first key plays no part in whether two combinations are the same.
    by_cases hsame : (d.left == c.left && d.right == c.right && d.label == label) = true
    · rw [if_pos hsame, if_pos hsame, addLayer_eq (hcombos d List.mem_cons_self), pure_bind]
    · rw [if_neg hsame, if_neg hsame, ih fun x hx => hcombos x (List.mem_cons_of_mem d hx),
        pure_bind]

theorem layered_addCombo {name : String} {c : Combo} (hc : c.layers ≠ []) {combos : List Combo}
    (hcombos : Layered combos) : Layered (Diagram.addCombo name c combos) := by
  induction combos with
  | nil => exact List.forall_mem_singleton.mpr hc
  | cons d combos ih =>
    obtain ⟨hd, hrest⟩ := List.forall_mem_cons.mp hcombos
    rw [Diagram.addCombo]
    by_cases hsame : d.matches c = true
    · rw [if_pos hsame]
      exact List.forall_mem_cons.mpr ⟨layers_addLayer hd name, hrest⟩
    · rw [if_neg hsame]
      exact List.forall_mem_cons.mpr ⟨hd, ih hrest⟩

/-- A chord finds the last layer of its combination, and leaves a layer in every combination. -/
theorem addChords_follows (m : Keymap) (l : Layer) {combos : List Combo}
    (hcombos : Layered combos) :
    Follows (fun found found' => found = found' ∧ Layered found)
      (l.chords.foldlM (addChord m l.name) combos) (addChords m l combos) := by
  refine Follows.foldlM l.chords (fun c _ before before' hbefore => ?_) ⟨rfl, hcombos⟩
  obtain ⟨rfl, hlayered⟩ := hbefore
  unfold addChord chordCombo
  rw [bind_assoc]
  refine (Follows.plain (keyLabel m c.chord.key)).bind fun label _ _ heq => ?_
  subst heq
  rw [addCombo_eq m l.name c label hlayered]
  exact .ok ⟨rfl, layered_addCombo (List.cons_ne_nil l.name []) hlayered⟩

/-! ## Documents -/

def drawLayers (m : Keymap) (combos : List Combo) :
    List Layer → Guarded (List LayerLabels × List Combo)
  | [] => return ([], combos)
  | l :: rest => do
    let labels ← labelLayer m l
    let combos' ← l.chords.foldlM (addChord m l.name) combos
    let (others, combos'') ← drawLayers m combos' rest
    return (labels :: others, combos'')

def buildDocument (m : Keymap) : Guarded Document := do
  let keyboard ← plain (m.options.require .diagram "keyboard")
  let (layers, combos) ← drawLayers m [] m.layers
  return {
    keyboard := keyboard.value
    layout := m.options.getD .diagram "layout" ""
    layers := layers
    combos := combos }

theorem drawLayers_follows (m : Keymap) (layers : List Layer)
    (hlayers : ∀ l ∈ layers, l.PlacedOn m.layout) {combos : List Combo}
    (hcombos : Layered combos) :
    Follows Eq (drawLayers m combos layers) (Diagram.drawLayers m combos layers) := by
  induction layers generalizing combos with
  | nil => exact .ok rfl
  | cons l layers ih =>
    obtain ⟨hl, hrest⟩ := List.forall_mem_cons.mp hlayers
    refine (labelLayer_follows m hl).bind fun labels _ _ heq => ?_
    subst heq
    refine (addChords_follows m l hcombos).bind fun found _ _ hfound => ?_
    obtain ⟨rfl, hlayered⟩ := hfound
    refine (ih hrest hlayered).bind fun others _ _ heq => ?_
    subst heq
    exact .ok rfl

theorem buildDocument_follows {m : Keymap} (hm : m.WellFormed) :
    Follows Eq (buildDocument m) (Diagram.build m) := by
  unfold buildDocument Diagram.build
  refine (Follows.plain (m.options.require .diagram "keyboard")).bind fun keyboard _ _ heq => ?_
  subst heq
  have hnone : Layered [] := fun c hc => nomatch hc
  refine (drawLayers_follows m m.layers (fun l hl => hm.placedOn hl) hnone).bind
    fun drawn _ _ heq => ?_
  subst heq
  exact .ok rfl

end Keyplan.Guarded
