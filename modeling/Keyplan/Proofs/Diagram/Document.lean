import Keyplan.Proofs.Keymap.Chords
import Keyplan.Proofs.Layer.Neighbours
import Keyplan.Proofs.Layout.Numbering

/-!
# Documents — what the diagram of a keymap shows

Every layer has a label for each key of the layout. Chords between the same keys under the same
label are one combination, which stands where the first of them was met and has the layers of all of
them. Keys are numbered row by row, in the layout and in the labels of a layer alike, so the number
of a combination leads to its two switches and to the labels around its chords.
-/

namespace Keyplan

open Outcome

namespace Diagram

open Firmware (ChordPair)
open Firmware.Allocator (ask eraseDups_concat)

variable {m : Keymap}

/-! ## 1. Labels -/

def labelOf (m : Keymap) (k : Key) : KeyLabel :=
  (keyLabel m k).toOption.getD {}

theorem labelOf_eq {k : Key} {label : KeyLabel} (h : keyLabel m k = .ok label) :
    labelOf m k = label := by
  rw [labelOf, h]
  rfl

/-- When layers were drawn, all their keys have labels. -/
theorem keyLabel_of_drawLayers {combos : List Combo} {layers : List Layer}
    {drawn : List LayerLabels × List Combo} (h : drawLayers m combos layers = .ok drawn)
    {l : Layer} (hl : l ∈ layers) {k : Key} (hk : k ∈ l.bindings) :
    keyLabel m k = .ok (labelOf m k) := by
  have hnone := (drawLayers_checks m layers combos).succeeds_iff.mp ⟨drawn, h⟩
  have hlabel : ∃ label, keyLabel m k = .ok label := by
    apply (keyLabel_checks m k).succeeds_iff.mpr
    intro plain hplain
    exact hnone plain (List.mem_flatMap.mpr ⟨l, hl, List.mem_flatMap.mpr ⟨k, hk, hplain⟩⟩)
  obtain ⟨label, hlabel⟩ := hlabel
  rw [labelOf_eq hlabel, hlabel]

def LayerLabels.at? (d : LayerLabels) (p : LayoutPos) : Option KeyLabel :=
  d.rows[p.row]?.bind (·[p.col]?)

/-- Labels that show a layer on the keys of the layout. -/
structure ShowsLayer (m : Keymap) (l : Layer) (d : LayerLabels) : Prop where
  name_eq : d.name = l.name
  length_rows : d.rows.length = m.layout.height
  length_row : ∀ row labels, d.rows[row]? = some labels → labels.length = m.layout.keysInRow row
  key : ∀ k ∈ l.keys, d.at? k.layout = some (labelOf m k.key)
  /-- A key that the layer does not have is blank. -/
  blank : ∀ p, m.layout.HasKey p → (∀ k ∈ l.keys, k.layout ≠ p) → d.at? p = some {}

theorem length_labelRows (layout : Layout) (labels : OrderedMap LayoutPos KeyLabel) :
    (labelRows layout labels).map List.length = layout.keyCounts := by
  have hcounts := List.zipIdx_map_fst 0 layout.keyCounts
  unfold labelRows
  simpa only [List.map_map, Function.comp_def, List.length_map, List.length_range] using hcounts

theorem labelRows_cell {layout : Layout} {p : LayoutPos} (hp : layout.HasKey p)
    (labels : OrderedMap LayoutPos KeyLabel) :
    (labelRows layout labels)[p.row]?.bind (·[p.col]?) = some ((labels.get? p).getD {}) := by
  obtain ⟨hrow, hcol⟩ := hp
  have hcount : layout.keyCounts[p.row]? = some (layout.keysInRow p.row) := by
    rw [← Layout.length_keyCounts] at hrow
    rw [Layout.keysInRow, List.getD_eq_getElem?_getD, List.getElem?_eq_getElem hrow,
      Option.getD_some]
  have hinRow : OrderedMap.get? (labels.filter fun e => e.1.row == p.row) ⟨p.col, p.row⟩ =
      labels.get? p :=
    OrderedMap.get?_filter (p := fun q : LayoutPos => q.row == p.row) (beq_self_eq_true p.row)
  simp [labelRows, hcount, hcol, hinRow]

theorem labelLayer_shows {l : Layer} {d : LayerLabels} (hl : l.PlacedOn m.layout)
    (h : labelLayer m l = .ok d) :
    ShowsLayer m l d ∧ d.rows.map List.length = m.layout.keyCounts := by
  obtain ⟨labels, hlabels, h⟩ := bind_eq_ok_iff.mp h
  obtain rfl := pure_eq_ok_iff.mp h
  have hentries : l.keys.map (fun k => (k.layout, labelOf m k.key)) = labels.map id := by
    apply map_of_mapM hlabels
    intro k entry hentry
    obtain ⟨label, hlabel, hentry⟩ := bind_eq_ok_iff.mp hentry
    rw [labelOf_eq hlabel]
    exact pure_eq_ok_iff.mp hentry
  rw [List.map_id] at hentries
  have hcounts := length_labelRows m.layout labels
  have hkeys : OrderedMap.keys labels = l.keys.map (·.layout) := by
    rw [← hentries, OrderedMap.keys, List.map_map]
    rfl
  refine ⟨⟨rfl, ?_, ?_, ?_, ?_⟩, hcounts⟩
  · rw [← Layout.length_keyCounts, ← hcounts, List.length_map]
  · intro row labels' hrow
    have hcount : m.layout.keyCounts[row]? = some labels'.length := by
      rw [← hcounts, List.getElem?_map, hrow]
      rfl
    rw [Layout.keysInRow, List.getD_eq_getElem?_getD, hcount]
    rfl
  -- No two keys lie on one layout key, so the label is found again.
  · intro k hk
    have hp := Layout.isSome_keyAt?_iff.mp (Option.isSome_of_eq_some (hl.key k hk))
    have hmem : (k.layout, labelOf m k.key) ∈ labels := by
      rw [← hentries]
      exact List.mem_map.mpr ⟨k, hk, rfl⟩
    rw [LayerLabels.at?, labelRows_cell hp,
      OrderedMap.get?_of_mem (hkeys ▸ hl.keys_nodup) hmem]
    rfl
  · intro p hp hnone
    have hmissing : p ∉ OrderedMap.keys labels := by
      rw [hkeys]
      intro hmem
      obtain ⟨k, hk, hlayout⟩ := List.mem_map.mp hmem
      exact hnone k hk hlayout
    rw [LayerLabels.at?, labelRows_cell hp, OrderedMap.get?_eq_none_iff.mpr hmissing]
    rfl

/-- The labels of a layer, row by row, are numbered as the keys of the layout are. -/
theorem flatten_getElem? {d : LayerLabels} (hcounts : d.rows.map List.length = m.layout.keyCounts)
    {p : LayoutPos} {label : KeyLabel} (h : d.at? p = some label) :
    d.rows.flatten[m.layout.keyNumber p]? = some label := by
  obtain ⟨row, hrow, hcell⟩ := Option.bind_eq_some_iff.mp h
  have hlt : p.col < (id row).length := (List.getElem?_eq_some_iff.mp hcell).1
  have hstart : Concatenation.start id d.rows p.row = (m.layout.keyCounts.take p.row).sum := by
    rw [← hcounts]
    rfl
  rw [← List.flatMap_id, Layout.keyNumber, ← hstart, Concatenation.getElem?_flatMap hrow hlt]
  exact hcell

/-! ## 2. Combinations -/

/-- What tells combinations apart: their switches and their label. -/
structure Mark where
  pair : ChordPair
  label : KeyLabel
  deriving DecidableEq

def Combo.mark (c : Combo) : Mark :=
  ⟨c.pair, c.label⟩

def chordMark (m : Keymap) (c : PlacedChord) : Mark :=
  ⟨c.pair, labelOf m c.chord.key⟩

def layerMarks (m : Keymap) (l : Layer) : List Mark :=
  l.chords.map (chordMark m)

def markEntries (m : Keymap) (l : Layer) : List (Mark × String) :=
  (layerMarks m l).map fun x => (x, l.name)

theorem Combo.matches_iff {c d : Combo} : d.matches c ↔ d.mark = c.mark := by
  simp [Combo.matches, Combo.mark, Combo.pair, and_assoc]

theorem Combo.mark_addLayer (c : Combo) (name : String) : (c.addLayer name).mark = c.mark := by
  unfold addLayer
  split <;> rfl

theorem map_mark_addCombo (name : String) (c : Combo) (combos : List Combo) :
    (addCombo name c combos).map Combo.mark = ask (combos.map Combo.mark) c.mark := by
  induction combos with
  | nil => rfl
  | cons d rest ih =>
    rw [addCombo]
    by_cases h : d.matches c
    · have hmark := Combo.matches_iff.mp h
      rw [if_pos h, List.map_cons, List.map_cons, Combo.mark_addLayer, ask,
        if_pos (hmark ▸ List.mem_cons_self)]
    · have hmark : c.mark ≠ d.mark := fun e => h (Combo.matches_iff.mpr e.symm)
      rw [if_neg h, List.map_cons, List.map_cons, ih]
      unfold ask
      simp only [List.mem_cons, hmark, false_or]
      split <;> rfl

/-- A combination behind the addition of one is an old one with another mark, the old one with that
mark and one layer more, or the new one. -/
theorem eq_of_mem_addCombo {name : String} {c : Combo} {combos : List Combo}
    (hnodup : (combos.map Combo.mark).Nodup) {x : Combo} (hx : x ∈ addCombo name c combos) :
    (x ∈ combos ∧ x.mark ≠ c.mark) ∨ (∃ d ∈ combos, d.mark = c.mark ∧ x = d.addLayer name) ∨
      (x = c ∧ c.mark ∉ combos.map Combo.mark) := by
  induction combos with
  | nil =>
    obtain rfl := List.mem_singleton.mp hx
    exact .inr (.inr ⟨rfl, List.not_mem_nil⟩)
  | cons d rest ih =>
    obtain ⟨hd, hrest⟩ := List.nodup_cons.mp hnodup
    rw [addCombo] at hx
    by_cases h : d.matches c
    · have hmark := Combo.matches_iff.mp h
      rw [if_pos h] at hx
      rcases List.mem_cons.mp hx with rfl | hx
      · exact .inr (.inl ⟨d, List.mem_cons_self, hmark, rfl⟩)
      · refine .inl ⟨List.mem_cons_of_mem _ hx, fun e => hd ?_⟩
        rw [hmark, ← e]
        exact List.mem_map_of_mem hx
    · have hmark : d.mark ≠ c.mark := fun e => h (Combo.matches_iff.mpr e)
      rw [if_neg h] at hx
      rcases List.mem_cons.mp hx with rfl | hx
      · exact .inl ⟨List.mem_cons_self, hmark⟩
      · rcases ih hrest hx with ⟨hx, hne⟩ | ⟨d', hd', hsame, rfl⟩ | ⟨rfl, hnew⟩
        · exact .inl ⟨List.mem_cons_of_mem _ hx, hne⟩
        · exact .inr (.inl ⟨d', List.mem_cons_of_mem _ hd', hsame, rfl⟩)
        · refine .inr (.inr ⟨rfl, ?_⟩)
          rw [List.map_cons, List.mem_cons, not_or]
          exact ⟨fun e => hmark e.symm, hnew⟩

/-- A combination whose number is that of its left key, with the right key behind it. -/
def Combo.Numbered (layout : Layout) (c : Combo) : Prop :=
  ∃ p, layout.matrixAt? p = some c.left ∧ layout.matrixAt? ⟨p.col + 1, p.row⟩ = some c.right ∧
    c.firstKey = layout.keyNumber p

theorem Combo.Numbered.addLayer {layout : Layout} {c : Combo} (h : c.Numbered layout)
    (name : String) : (c.addLayer name).Numbered layout := by
  unfold Combo.addLayer
  split
  · exact h
  · exact h

/-- Combinations that were merged from chords with the marks and layers `done`. -/
structure Merges (layout : Layout) (done : List (Mark × String)) (combos : List Combo) :
    Prop where
  marks : combos.map Combo.mark = (done.map Prod.fst).eraseDups
  layers : ∀ c ∈ combos, c.layers = (done.filter fun e => decide (e.1 = c.mark)).map Prod.snd
  numbered : ∀ c ∈ combos, c.Numbered layout

theorem merges_nil (layout : Layout) : Merges layout [] [] :=
  ⟨rfl, nofun, nofun⟩

variable {layout : Layout} {done : List (Mark × String)} {combos combos' : List Combo}

theorem Merges.addCombo (h : Merges layout done combos) {name : String} {c : Combo}
    (hc : c.layers = [name]) (hnumbered : c.Numbered layout) (hfresh : (c.mark, name) ∉ done) :
    Merges layout (done ++ [(c.mark, name)]) (addCombo name c combos) := by
  have hnodup : (combos.map Combo.mark).Nodup := by
    rw [h.marks]
    exact OrderedMap.nodup_eraseDups _
  refine ⟨?_, fun x hx => ?_, fun x hx => ?_⟩
  · rw [map_mark_addCombo, h.marks, ← eraseDups_concat, List.map_append]
    rfl
  · rw [List.filter_append, List.map_append]
    rcases eq_of_mem_addCombo hnodup hx with ⟨hx, hne⟩ | ⟨d, hd, hmark, rfl⟩ | ⟨rfl, hnew⟩
    · rw [h.layers x hx, List.filter_cons_of_neg (by simpa using hne.symm)]
      exact (List.append_nil _).symm
    -- The layer was not met with this mark before, so it is not the last one.
    · have hlast : d.layers.getLast? ≠ some name := by
        intro e
        have hmem := List.mem_of_getLast? e
        rw [h.layers d hd] at hmem
        obtain ⟨⟨mark, s⟩, hs, rfl⟩ := List.mem_map.mp hmem
        obtain ⟨hs, hsame⟩ := List.mem_filter.mp hs
        have hsame' : mark = c.mark := (of_decide_eq_true hsame).trans hmark
        exact hfresh (hsame' ▸ hs)
      rw [Combo.mark_addLayer, hmark, Combo.addLayer, if_neg hlast,
        List.filter_cons_of_pos (by simp), ← hmark, ← h.layers d hd]
      rfl
    · have hnone : (done.filter fun e => decide (e.1 = x.mark)) = [] := by
        apply List.filter_eq_nil_iff.mpr
        intro e he hsame
        rw [h.marks, List.mem_eraseDups] at hnew
        exact hnew (List.mem_map.mpr ⟨e, he, of_decide_eq_true hsame⟩)
      rw [hnone, hc, List.filter_cons_of_pos (by simp)]
      rfl
  · rcases eq_of_mem_addCombo hnodup hx with ⟨hx, -⟩ | ⟨d, hd, -, rfl⟩ | ⟨rfl, -⟩
    · exact h.numbered x hx
    · exact (h.numbered d hd).addLayer name
    · exact hnumbered

theorem Merges.addChords (h : Merges m.layout done combos) {l : Layer}
    (hl : l.PlacedOn m.layout) (hadd : addChords m l combos = .ok combos')
    (hnodup : (done ++ markEntries m l).Nodup) :
    Merges m.layout (done ++ markEntries m l) combos' := by
  have hentries : markEntries m l = l.chords.map fun c => (chordMark m c, l.name) := by
    rw [markEntries, layerMarks, List.map_map]
    rfl
  rw [hentries] at hnodup ⊢
  apply addChords_of_ok (P := fun seen combos =>
    Merges m.layout (done ++ seen.map fun c => (chordMark m c, l.name)) combos) ?_ ?_ hadd
  · intro seen c rest combos combo hall h hcombo
    obtain ⟨label, hlabel, heq⟩ := chordCombo_eq_ok hcombo
    have hmem : c ∈ l.chords := hall ▸ List.mem_append_right _ List.mem_cons_self
    have hmark : combo.mark = chordMark m c := by
      rw [chordMark, labelOf_eq hlabel, heq]
      rfl
    have hlayers : combo.layers = [l.name] := by rw [heq]
    have hnumbered : combo.Numbered m.layout := by
      rw [heq]
      exact ⟨c.leftLayout, Layout.matrixAt?_eq_some_iff.mpr (hl.left c hmem),
        Layout.matrixAt?_eq_some_iff.mpr (hl.right c hmem), Layout.keyIndex_eq_keyNumber _ _⟩
    rw [← hall, List.map_append, List.map_cons, ← List.append_assoc] at hnodup
    have hfresh : (chordMark m c, l.name) ∉ done ++ seen.map fun c => (chordMark m c, l.name) :=
      fun hmem => (List.nodup_append.mp hnodup).2.2 _ hmem _ List.mem_cons_self rfl
    rw [List.map_append, ← List.append_assoc, List.map_singleton]
    rw [← hmark] at hfresh ⊢
    exact h.addCombo hlayers hnumbered hfresh
  · rwa [List.map_nil, List.append_nil]

/-! ## 3. Layers -/

theorem Merges.drawLayers (layers : List Layer) (hlayers : ∀ l ∈ layers, l.PlacedOn m.layout)
    (h : Merges m.layout done combos) {labels : List LayerLabels}
    (hdraw : drawLayers m combos layers = .ok (labels, combos'))
    (hnodup : (done ++ layers.flatMap (markEntries m)).Nodup) :
    Merges m.layout (done ++ layers.flatMap (markEntries m)) combos' ∧
      layers.mapM (labelLayer m) = .ok labels := by
  apply drawLayers_of_ok (P := fun seen combos =>
    Merges m.layout (done ++ seen.flatMap (markEntries m)) combos) ?_ layers []
    (List.nil_append _) ?_ hdraw
  · intro seen l rest combos combos' hall h hadd
    have hl : l ∈ layers := hall ▸ List.mem_append_right _ List.mem_cons_self
    rw [← hall, List.flatMap_append, List.flatMap_cons, ← List.append_assoc,
      ← List.append_assoc] at hnodup
    rw [List.flatMap_append, List.flatMap_singleton, ← List.append_assoc]
    exact h.addChords (hlayers l hl) hadd (List.nodup_append.mp hnodup).1
  · rwa [List.flatMap_nil, List.append_nil]

/-- The layers met with a mark are those that have a chord with it. -/
theorem filter_markEntries (layers : List Layer) (hnodup : ∀ l ∈ layers, (layerMarks m l).Nodup)
    (mark : Mark) :
    ((layers.flatMap (markEntries m)).filter fun e => decide (e.1 = mark)).map Prod.snd =
      (layers.filter fun l => decide (mark ∈ layerMarks m l)).map (·.name) := by
  induction layers with
  | nil => rfl
  | cons l layers ih =>
    obtain ⟨hl, hrest⟩ := List.forall_mem_cons.mp hnodup
    have hhere : ((markEntries m l).filter fun e => decide (e.1 = mark)).map Prod.snd =
        if mark ∈ layerMarks m l then [l.name] else [] := by
      rw [markEntries, List.filter_map, List.map_map, Function.comp_def, Function.comp_def,
        List.filter_eq, hl.count]
      split <;> rfl
    rw [List.flatMap_cons, List.filter_append, List.map_append, hhere, ih hrest, List.filter_cons]
    by_cases hmark : mark ∈ layerMarks m l
    · simp [hmark]
    · simp [hmark]

theorem nodup_markEntries (hm : m.WellFormed) : (m.layers.flatMap (markEntries m)).Nodup := by
  have hpairs : (m.layers.flatMap (markEntries m)).map (fun e => (e.1.pair, e.2)) =
      m.occurrences := by
    rw [List.map_flatMap]
    apply List.flatMap_congr
    intro l _
    simp [markEntries, layerMarks, chordMark, Layer.occurrences, Layer.pairs]
  apply List.Nodup.of_map (fun e => (e.1.pair, e.2))
  rw [hpairs]
  exact hm.nodup_occurrences

theorem nodup_layerMarks (hm : m.WellFormed) {l : Layer} (hl : l ∈ m.layers) :
    (layerMarks m l).Nodup := by
  apply List.Nodup.of_map fun x : Mark => (x, l.name)
  exact (List.nodup_flatMap.mp (nodup_markEntries hm)).1 l hl

/-! ## 4. Documents -/

def Combo.keyPositions (c : Combo) : List Int :=
  [c.firstKey, c.firstKey + 1]

theorem comboYaml_keyPositions (c : Combo) : ∃ rest,
    comboYaml c = .mapping (("key_positions", .flow (c.keyPositions.map .number)) :: rest) :=
  ⟨_, rfl⟩

/-- The numbers of a combination lead to its switches, and in each of its layers to the labels of
the two keys around a chord with its mark. -/
def Combo.PointsAt (m : Keymap) (doc : Document) (c : Combo) : Prop :=
  ∃ i : Nat, c.keyPositions = [(i : Int), (i : Int) + 1] ∧
    m.layout.switches[i]? = some c.left ∧ m.layout.switches[i + 1]? = some c.right ∧
    ∀ name ∈ c.layers, ∃ (n : Nat) (b : LayerBlock) (l : Layer) (shown : LayerLabels),
      m.description.layers[n]? = some b ∧ m.layers[n]? = some l ∧ doc.layers[n]? = some shown ∧
      shown.name = name ∧ ∃ chord ∈ l.chords, ∃ k k', chordMark m chord = c.mark ∧
        chord.Between b k k' ∧ shown.rows.flatten[i]? = some (labelOf m k) ∧
        shown.rows.flatten[i + 1]? = some (labelOf m k')

/-- A document that shows the layers and the chords of a keymap. -/
structure Draws (m : Keymap) (doc : Document) : Prop where
  labelled : ∀ l ∈ m.layers, ∀ k ∈ l.bindings, keyLabel m k = .ok (labelOf m k)
  layers : List.Forall₂ (ShowsLayer m) m.layers doc.layers
  /-- There is one combination for each mark, in the order in which the marks are met. -/
  marks : doc.combos.map Combo.mark = (m.layers.flatMap (layerMarks m)).eraseDups
  /-- A combination has the layers with a chord of its mark. -/
  comboLayers : ∀ c ∈ doc.combos,
    c.layers = (m.layers.filter fun l => decide (c.mark ∈ layerMarks m l)).map (·.name)
  comboLayers_nodup : ∀ c ∈ doc.combos, c.layers.Nodup
  points : ∀ c ∈ doc.combos, c.PointsAt m doc

/-- The switches of a combination lead to one position of the layout, so all chords with its mark
stand there. -/
theorem Combo.Numbered.pointsAt (hm : m.WellFormed) {doc : Document} {c : Combo}
    (hc : c.Numbered m.layout) (hlabels : m.layers.mapM (labelLayer m) = .ok doc.layers)
    (hlayers : c.layers =
      (m.layers.filter fun l => decide (c.mark ∈ layerMarks m l)).map (·.name)) :
    c.PointsAt m doc := by
  obtain ⟨p, hleft, hright, hnumber⟩ := hc
  refine ⟨m.layout.keyNumber p, ?_, Layout.switches_getElem? hleft,
    Layout.switches_getElem? hright, fun name hname => ?_⟩
  · rw [keyPositions, hnumber]
  rw [hlayers] at hname
  obtain ⟨l, hl, rfl⟩ := List.mem_map.mp hname
  obtain ⟨hl, hmark⟩ := List.mem_filter.mp hl
  obtain ⟨chord, hchord, hmark⟩ := List.mem_map.mp (of_decide_eq_true hmark)
  obtain ⟨n, hn⟩ := List.getElem?_of_mem hl
  obtain ⟨b, hb, hresolve⟩ := hm.exists_block hn
  obtain ⟨shown, hshown, hlabel⟩ := mapM_getElem? hlabels hn
  obtain ⟨hshows, hcounts⟩ := labelLayer_shows (hm.placedOn hl) hlabel
  have hlays := Layer.lays_of_resolve hm.layout hresolve
  obtain ⟨k, hk, k', hk', hbetween, hplace, hplace'⟩ :=
    hlays.exists_between (Layer.resolve_succeeds_iff.mp ⟨l, hresolve⟩) hchord
  -- The chord has the left switch of the combination, so it stands at the same position.
  have hpair : chord.pair = c.pair := congrArg Mark.pair hmark
  have hswitch : m.layout.matrixAt? chord.leftLayout = some c.left := by
    rw [hlays.left chord hchord]
    exact congrArg (some ∘ Firmware.ChordPair.left) hpair
  have hp : chord.leftLayout = p := hm.layout.matrixAt?_inj hswitch hleft
  refine ⟨n, b, l, shown, hb, hn, hshown, hshows.name_eq, chord, hchord, k.key, k'.key, hmark,
    hbetween, ?_, ?_⟩
  · have hat := hshows.key k hk
    rw [hplace, hp] at hat
    exact flatten_getElem? hcounts hat
  · have hat := hshows.key k' hk'
    rw [hplace', PlacedChord.rightLayout, hp] at hat
    exact flatten_getElem? hcounts hat

/-- The diagram of a keymap shows its layers and its chords. -/
theorem build_draws {source : Text} {defaults : List DefaultOption} {m : Keymap} {doc : Document}
    (hread : Keymap.read source defaults = .ok m) (hbuild : build m = .ok doc) : Draws m doc := by
  have hm := Keymap.wellFormed_of_read hread
  unfold build at hbuild
  obtain ⟨keyboard, -, hbuild⟩ := bind_eq_ok_iff.mp hbuild
  obtain ⟨⟨labels, combos⟩, hdraw, hbuild⟩ := bind_eq_ok_iff.mp hbuild
  obtain rfl := pure_eq_ok_iff.mp hbuild
  have hplaced : ∀ l ∈ m.layers, l.PlacedOn m.layout := fun l hl => hm.placedOn hl
  -- The run over all layers keeps the invariant, which no combinations at all satisfy.
  obtain ⟨hmerges, hlabels⟩ := (merges_nil m.layout).drawLayers m.layers hplaced hdraw
    (nodup_markEntries hm)
  rw [List.nil_append] at hmerges
  have hcomboLayers : ∀ c ∈ combos,
      c.layers = (m.layers.filter fun l => decide (c.mark ∈ layerMarks m l)).map (·.name) := by
    intro c hc
    rw [hmerges.layers c hc]
    exact filter_markEntries m.layers (fun l hl => nodup_layerMarks hm hl) c.mark
  refine {
    labelled := fun l hl k hk => keyLabel_of_drawLayers hdraw hl hk
    layers := ?_
    marks := ?_
    comboLayers := hcomboLayers
    comboLayers_nodup := fun c hc => ?_
    points := fun c hc => (hmerges.numbered c hc).pointsAt hm hlabels (hcomboLayers c hc) }
  · apply List.forall₂_iff_get.mpr
    refine ⟨(length_of_mapM hlabels).symm, fun i hi hi' => ?_⟩
    obtain ⟨shown, hshown, hlabel⟩ := mapM_getElem? hlabels (List.getElem?_eq_getElem hi)
    obtain rfl := Option.some.inj ((List.getElem?_eq_getElem hi').symm.trans hshown)
    exact (labelLayer_shows (hplaced _ (List.getElem_mem hi)) hlabel).1
  · rw [hmerges.marks, List.map_flatMap]
    congr 1
    apply List.flatMap_congr
    intro l _
    rw [markEntries, List.map_map]
    exact List.map_id _
  · rw [hcomboLayers c hc]
    exact (List.filter_sublist.map _).nodup hm.layerNames_nodup

/-- A layout with a spacer above two keys that are wired crosswise. The chords of the lower row have
one label on the first and the last layer, and another one between them. -/
def crossedChords : Text :=
  Text.ofString ("options diagram \x7b keyboard: \"k\"; \x7d" ++
    "layout \x7b 1k 1s 1k; [1] [0] 1s; \x7d" ++
    "layer a \x7b '1' >'2'< '3'; '4' >'5'< '6'; \x7d layer b \x7b '1'; '4' >'7'< '6'; \x7d" ++
    "layer c \x7b '1'; '8' >'5'< '9'; \x7d")

/-- The combinations of the lower row are on the third and the fourth key, which have the second and
the first switch of the row. -/
theorem build_draws_crossedChords : ∃ m doc, Keymap.read crossedChords [] = .ok m ∧
    build m = .ok doc ∧ Draws m doc ∧
    doc.combos.map Combo.keyPositions = [[0, 1], [2, 3], [2, 3]] ∧
    doc.combos.map Combo.pair = [⟨⟨0, 0⟩, ⟨2, 0⟩⟩, ⟨⟨1, 1⟩, ⟨0, 1⟩⟩, ⟨⟨1, 1⟩, ⟨0, 1⟩⟩] ∧
    doc.combos.map (·.layers) = [["a"], ["a", "c"], ["b"]] := by
  have hrun : ((Keymap.read crossedChords []).toOption.bind fun m =>
      (build m).toOption.map fun doc => (doc.combos.map Combo.keyPositions,
        doc.combos.map Combo.pair, doc.combos.map (·.layers))) =
      some ([[0, 1], [2, 3], [2, 3]], [⟨⟨0, 0⟩, ⟨2, 0⟩⟩, ⟨⟨1, 1⟩, ⟨0, 1⟩⟩, ⟨⟨1, 1⟩, ⟨0, 1⟩⟩],
        [["a"], ["a", "c"], ["b"]]) := by
    decide +kernel
  obtain ⟨m, hm, hrun⟩ := Option.bind_eq_some_iff.mp hrun
  obtain ⟨doc, hdoc, hrun⟩ := Option.map_eq_some_iff.mp hrun
  obtain ⟨hpositions, hrun⟩ := Prod.mk.inj hrun
  obtain ⟨hpairs, hlayers⟩ := Prod.mk.inj hrun
  have hread := toOption_eq_some_iff.mp hm
  have hbuild := toOption_eq_some_iff.mp hdoc
  exact ⟨m, doc, hread, hbuild, build_draws hread hbuild, hpositions, hpairs, hlayers⟩

end Diagram

end Keyplan
