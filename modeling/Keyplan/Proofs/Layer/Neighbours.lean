import Keyplan.Proofs.Layer.Acceptance

/-!
# Neighbours — the keys around a chord

A chord of a layer stands between two keys of its row. The layer has both of them, the one on its
left at the layout position of the chord and the other one behind it.
-/

namespace Keyplan

/-- A chord stands in a layer block between the keys `k` and `k'`, behind as many keys as its left
layout position says. -/
def PlacedChord.Between (b : LayerBlock) (c : PlacedChord) (k k' : Key) : Prop :=
  ∃ node before after, b.rows[c.leftLayout.row]? = some node ∧
    node.items = before ++ .key k :: .chord c.chord :: .key k' :: after ∧
    (before.filterMap RowItem.key?).length = c.leftLayout.col

namespace LayerRow

theorem exists_of_mem_chordsFrom {n j : Nat} {items : List RowItem} {c : Chord}
    (h : (c, j) ∈ chordsFrom n items) : ∃ before after,
      items = before ++ .chord c :: after ∧ n + (before.filterMap RowItem.key?).length = j := by
  induction items generalizing n with
  | nil => cases h
  | cons item rest ih =>
    cases item with
    | key k =>
      obtain ⟨before, after, rfl, hcount⟩ := ih (n := n + 1) h
      refine ⟨.key k :: before, after, rfl, ?_⟩
      show n + ((before.filterMap RowItem.key?).length + 1) = j
      omega
    | chord d =>
      rcases List.mem_cons.mp h with e | h
      · obtain ⟨rfl, rfl⟩ := Prod.mk.inj e
        exact ⟨[], rest, rfl, rfl⟩
      · obtain ⟨before, after, rfl, hcount⟩ := ih h
        exact ⟨.chord d :: before, after, rfl, hcount⟩

end LayerRow

namespace Layer

theorem eq_concat_of_isKey {items : List RowItem} (h : isKey items.getLast?) :
    ∃ before k, items = before ++ [.key k] := by
  cases hlast : items.getLast? with
  | none =>
    rw [hlast] at h
    cases h
  | some item =>
    rw [hlast] at h
    cases item with
    | chord => cases h
    | key k =>
      obtain ⟨before, rfl⟩ := List.getLast?_eq_some_iff.mp hlast
      exact ⟨before, k, rfl⟩

theorem eq_cons_of_isKey {items : List RowItem} (h : isKey items.head?) :
    ∃ k after, items = .key k :: after := by
  cases items with
  | nil => cases h
  | cons item after =>
    cases item with
    | chord => cases h
    | key k => exact ⟨k, after, rfl⟩

/-- The key of a row with `before` keys on its left is placed at their number. -/
theorem Lays.exists_key {layout : Layout} {b : LayerBlock} {l : Layer} (hl : Lays layout b l)
    {row : Nat} {node : LayerRow} (hnode : b.rows[row]? = some node) {before after : List RowItem}
    {k : Key} (hitems : node.items = before ++ .key k :: after) :
    ∃ placed ∈ l.keys, placed.key = k ∧
      placed.layout = ⟨(before.filterMap RowItem.key?).length, row⟩ := by
  have hkey : node.keys[(before.filterMap RowItem.key?).length]? = some k := by
    rw [LayerRow.keys, hitems, List.filterMap_append, List.getElem?_append_right (Nat.le_refl _),
      Nat.sub_self]
    rfl
  have hmem : (k, LayoutPos.mk (before.filterMap RowItem.key?).length row) ∈ b.keyPlaces := by
    unfold LayerBlock.keyPlaces
    refine List.mem_flatMap.mpr ⟨(node, row), List.mem_zipIdx_iff_getElem?.mpr hnode, ?_⟩
    exact List.mem_map.mpr ⟨(k, _), List.mem_zipIdx_iff_getElem?.mpr hkey, rfl⟩
  rw [← hl.keys_eq] at hmem
  obtain ⟨placed, hplaced, heq⟩ := List.mem_map.mp hmem
  obtain ⟨rfl, hlayout⟩ := Prod.mk.inj heq
  exact ⟨placed, hplaced, rfl, hlayout⟩

/-- Around every chord are two keys, placed on its left and on its right layout position. -/
theorem Lays.exists_between {layout : Layout} {b : LayerBlock} {l : Layer} (hl : Lays layout b l)
    (hfits : b.FitsLayout layout) {c : PlacedChord} (hc : c ∈ l.chords) :
    ∃ k ∈ l.keys, ∃ k' ∈ l.keys, c.Between b k.key k'.key ∧ k.layout = c.leftLayout ∧
      k'.layout = c.rightLayout := by
  have hmem : (c.chord, c.rightLayout) ∈ b.chordPlaces := by
    rw [← hl.chords_eq]
    exact List.mem_map.mpr ⟨c, hc, rfl⟩
  obtain ⟨⟨node, row⟩, hnode, hmem⟩ := List.mem_flatMap.mp hmem
  have hrow := List.mem_zipIdx_iff_getElem?.mp hnode
  obtain ⟨⟨chord, j⟩, hchord, heq⟩ := List.mem_map.mp hmem
  obtain ⟨rfl, hright⟩ := Prod.mk.inj heq
  obtain ⟨hj, hrowEq⟩ := LayoutPos.mk.inj hright
  obtain ⟨before, after, hitems, hcount⟩ := LayerRow.exists_of_mem_chordsFrom hchord
  obtain ⟨hbefore, hafter⟩ :=
    hfits.flanked node (List.mem_of_getElem? hrow) before c.chord after hitems
  obtain ⟨before, k, rfl⟩ := eq_concat_of_isKey hbefore
  obtain ⟨k', after, rfl⟩ := eq_cons_of_isKey hafter
  rw [List.append_assoc] at hitems
  -- The key on the left is the last of those before the chord.
  rw [List.filterMap_append, List.length_append] at hcount
  have hleft : (before.filterMap RowItem.key?).length = c.leftLayout.col := by
    change 0 + ((before.filterMap RowItem.key?).length + 1) = j at hcount
    omega
  obtain ⟨placed, hplaced, rfl, hlayout⟩ := hl.exists_key hrow hitems
  have hitems' :
      node.items = (before ++ [.key placed.key, .chord c.chord]) ++ .key k' :: after := by
    rw [hitems, List.append_assoc]
    rfl
  obtain ⟨placed', hplaced', rfl, hlayout'⟩ := hl.exists_key hrow hitems'
  refine ⟨placed, hplaced, placed', hplaced', ⟨node, before, after, ?_, hitems, hleft⟩, ?_, ?_⟩
  · rw [← hrowEq]
    exact hrow
  · rw [hlayout, hleft, hrowEq]
  · rw [hlayout', List.filterMap_append, List.length_append, hleft, hrowEq]
    rfl

end Layer

end Keyplan
