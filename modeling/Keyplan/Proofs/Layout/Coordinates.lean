import Keyplan.Proofs.Layout.Resolution

/-!
# Coordinates — physical cells, layout positions and switches of a resolved layout

The views of a layout translate between its three coordinate spaces. Physical cells that are no
spacers and layout positions are in bijection, row by row and from left to right, and every layout
position of a well-formed layout has a switch of its own. A cell more at the end of the last row
changes each view at one place.
-/

namespace Keyplan.Layout

/-! ## 1. Looking up an entry of a row -/

/-- Where no value is listed twice, the entry with a value is the first one with it. -/
theorem findIdx?_eq_some_iff_of_nodup {α β : Type} [BEq β] [LawfulBEq β] {xs : List α}
    {f : α → β} (hxs : (xs.map f).Nodup) {a : β} {i : Nat} :
    xs.findIdx? (fun x => f x == a) = some i ↔ ∃ x, xs[i]? = some x ∧ f x = a := by
  constructor
  · intro h
    obtain ⟨hlt, hfound, -⟩ := List.findIdx?_eq_some_iff_getElem.mp h
    exact ⟨xs[i], List.getElem?_eq_getElem hlt, by simpa using hfound⟩
  · rintro ⟨x, hx, rfl⟩
    obtain ⟨hlt, rfl⟩ := List.getElem?_eq_some_iff.mp hx
    apply List.findIdx?_eq_some_iff_getElem.mpr
    refine ⟨hlt, by simp, fun j hj hfound => ?_⟩
    -- An earlier entry with the same value would be listed twice.
    have heq : (xs.map f)[j]? = (xs.map f)[i]? := by
      have hjlt : j < xs.length := by omega
      rw [List.getElem?_map, List.getElem?_map, List.getElem?_eq_getElem hlt,
        List.getElem?_eq_getElem hjlt]
      exact congrArg some (by simpa using hfound)
    have hji : j = i := (List.getElem?_inj (by rw [List.length_map]; omega) hxs).mp heq
    omega

theorem nodup_fst_rowKeys (row : List Slot) : ((rowKeys row).map (·.1)).Nodup := by
  apply List.pairwise_map.mpr
  apply (rowKeys_increasing row).imp
  intro x y hlt
  exact Nat.ne_of_lt hlt

/-! ## 2. Views of one key -/

/-- The physical cell of the key at a layout position. -/
def physicalAt? (l : Layout) (p : LayoutPos) : Option PhysicalPos :=
  (l.keyAt? p).map (·.1)

/-- The layout positions: the keys of each row, numbered from the left. -/
def HasKey (l : Layout) (p : LayoutPos) : Prop :=
  p.row < l.height ∧ p.col < l.keysInRow p.row

variable {l : Layout} {p p' : LayoutPos} {q q' : PhysicalPos} {m : MatrixPos}

theorem physicalAt?_eq_some_iff : l.physicalAt? p = some q ↔ ∃ m, l.keyAt? p = some (q, m) := by
  simp [physicalAt?]

theorem matrixAt?_eq_some_iff : l.matrixAt? p = some m ↔ ∃ q, l.keyAt? p = some (q, m) := by
  simp [matrixAt?]

theorem isSome_keyAt?_iff : (l.keyAt? p).isSome ↔ l.HasKey p := by
  unfold HasKey height keysInRow keyCounts
  by_cases hrow : p.row < l.rows.length
  · by_cases hcol : p.col < (rowKeys l.rows[p.row]).length
    · simp [keyAt?, hrow, hcol]
    · simp [keyAt?, hrow, hcol]
  · simp [keyAt?, hrow]

theorem slotAt?_eq_some_iff {slot : Slot} :
    l.slotAt? q = some slot ↔ ∃ row, l.rows[q.row]? = some row ∧ row[q.col]? = some slot := by
  simp [slotAt?, Option.bind_eq_some_iff]

theorem layoutOf?_eq_some_iff : l.layoutOf? q = some p ↔ ∃ m, l.keyAt? p = some (q, m) := by
  obtain ⟨col, row⟩ := p
  simp only [layoutOf?, Option.bind_eq_bind, Option.bind_eq_some_iff, Option.pure_def,
    Option.some.injEq, LayoutPos.mk.injEq, keyAt?_eq_some_iff]
  constructor
  · rintro ⟨slots, hslots, c, hc, rfl, rfl⟩
    obtain ⟨⟨x, column⟩, hx, rfl⟩ :=
      (findIdx?_eq_some_iff_of_nodup (nodup_fst_rowKeys slots)).mp hc
    exact ⟨⟨column, q.row⟩, ⟨slots, hslots, hx⟩, rfl, rfl⟩
  · rintro ⟨m, ⟨slots, hslots, hkey⟩, rfl, -⟩
    refine ⟨slots, hslots, col, ?_, rfl, rfl⟩
    exact (findIdx?_eq_some_iff_of_nodup (nodup_fst_rowKeys slots)).mpr ⟨_, hkey, rfl⟩

theorem exists_keyAt?_iff :
    (∃ p, l.keyAt? p = some (q, m)) ↔ l.slotAt? q = some (.key m.col) ∧ m.row = q.row := by
  simp only [keyAt?_eq_some_iff, slotAt?_eq_some_iff]
  constructor
  · rintro ⟨p, ⟨row, hrow, hkey⟩, hq, hm⟩
    rw [← hq] at hrow
    exact ⟨⟨row, hrow, mem_rowKeys.mp (List.mem_of_getElem? hkey)⟩, hm.trans hq.symm⟩
  · rintro ⟨⟨row, hrow, hslot⟩, hm⟩
    obtain ⟨col, hkey⟩ := List.getElem?_of_mem (mem_rowKeys.mpr hslot)
    exact ⟨⟨col, q.row⟩, ⟨row, hrow, hkey⟩, rfl, hm⟩

/-- Keys of a row are numbered from left to right. -/
theorem physicalAt?_increasing (hrow : p.row = p'.row) (hcol : p.col < p'.col)
    (hp : l.physicalAt? p = some q) (hp' : l.physicalAt? p' = some q') : q.col < q'.col := by
  obtain ⟨m, hm⟩ := physicalAt?_eq_some_iff.mp hp
  obtain ⟨m', hm'⟩ := physicalAt?_eq_some_iff.mp hp'
  obtain ⟨⟨slots, hslots, hkey⟩, -⟩ := keyAt?_eq_some_iff.mp hm
  obtain ⟨⟨slots', hslots', hkey'⟩, -⟩ := keyAt?_eq_some_iff.mp hm'
  rw [← hrow, hslots] at hslots'
  obtain rfl := Option.some.inj hslots'
  obtain ⟨hlt, he⟩ := List.getElem?_eq_some_iff.mp hkey
  obtain ⟨hlt', he'⟩ := List.getElem?_eq_some_iff.mp hkey'
  have hless := List.pairwise_iff_getElem.mp (rowKeys_increasing slots) _ _ hlt hlt' hcol
  rw [he, he'] at hless
  exact hless

/-! ## 3. Views of a well-formed layout -/

namespace WellFormed

theorem isSome_slotAt?_iff (hl : l.WellFormed) :
    (l.slotAt? q).isSome ↔ q.col < l.width ∧ q.row < l.height := by
  unfold slotAt? height
  by_cases hrow : q.row < l.rows.length
  · have hlen := hl.length_eq l.rows[q.row] (List.getElem_mem hrow)
    simp [hrow, hlen]
  · simp [hrow]

theorem layoutAt?_eq_some_iff (hl : l.WellFormed) :
    l.layoutAt? m = some p ↔ l.matrixAt? p = some m := by
  obtain ⟨col, row⟩ := p
  simp only [layoutAt?, Option.bind_eq_bind, Option.bind_eq_some_iff, Option.pure_def,
    Option.some.injEq, LayoutPos.mk.injEq, matrixAt?_eq_some_iff, keyAt?_eq_some_iff]
  have hnodup : ∀ slots, l.rows[m.row]? = some slots → ((rowKeys slots).map (·.2)).Nodup := by
    intro slots hslots
    rw [map_snd_rowKeys]
    exact hl.nodup slots (List.mem_of_getElem? hslots)
  constructor
  · rintro ⟨slots, hslots, c, hc, rfl, rfl⟩
    obtain ⟨⟨x, column⟩, hx, rfl⟩ :=
      (findIdx?_eq_some_iff_of_nodup (hnodup slots hslots)).mp hc
    exact ⟨⟨x, m.row⟩, ⟨slots, hslots, hx⟩, rfl, rfl⟩
  · rintro ⟨q, ⟨slots, hslots, hkey⟩, -, rfl⟩
    refine ⟨slots, hslots, col, ?_, rfl, rfl⟩
    exact (findIdx?_eq_some_iff_of_nodup (hnodup slots hslots)).mpr ⟨_, hkey, rfl⟩

theorem matrixAt?_inj (hl : l.WellFormed) (hp : l.matrixAt? p = some m)
    (hp' : l.matrixAt? p' = some m) : p = p' := by
  obtain ⟨q, hq⟩ := matrixAt?_eq_some_iff.mp hp
  obtain ⟨q', hq'⟩ := matrixAt?_eq_some_iff.mp hp'
  exact hl.keyAt?_inj hq hq'

end WellFormed

/-! ## 4. Views of a growing grid -/

theorem getElem?_concat {α : Type} (xs : List α) (a : α) (i : Nat) :
    (xs ++ [a])[i]? = if xs.length = i then some a else xs[i]? := by
  by_cases hi : xs.length = i
  · rw [if_pos hi, ← hi, List.getElem?_concat_length]
  · rw [if_neg hi, List.getElem?_append]
    split
    · rfl
    · rw [List.getElem?_eq_none_iff.mpr (by rw [List.length_singleton]; omega),
        List.getElem?_eq_none_iff.mpr (by omega)]

theorem rowKeys_concat_key (slots : List Slot) (column : Nat) :
    rowKeys (slots ++ [.key column]) = rowKeys slots ++ [(slots.length, column)] := by
  simp [rowKeys, List.zipIdx_append, Slot.column?]

theorem rowKeys_concat_space (slots : List Slot) :
    rowKeys (slots ++ [.space]) = rowKeys slots := by
  simp [rowKeys, List.zipIdx_append, Slot.column?]

theorem slotAt?_concat (rows : List (List Slot)) (slots : List Slot) (slot : Slot)
    (q : PhysicalPos) :
    slotAt? ⟨rows ++ [slots ++ [slot]]⟩ q =
      if ⟨slots.length, rows.length⟩ = q then some slot else slotAt? ⟨rows ++ [slots]⟩ q := by
  obtain ⟨col, row⟩ := q
  simp only [slotAt?, getElem?_concat, PhysicalPos.mk.injEq]
  by_cases hrow : rows.length = row
  · simp [hrow, getElem?_concat]
  · simp [hrow]

theorem keyAt?_concat_key (rows : List (List Slot)) (slots : List Slot) (column : Nat)
    (p : LayoutPos) :
    keyAt? ⟨rows ++ [slots ++ [.key column]]⟩ p =
      if ⟨(rowKeys slots).length, rows.length⟩ = p then
        some (⟨slots.length, rows.length⟩, ⟨column, rows.length⟩)
      else keyAt? ⟨rows ++ [slots]⟩ p := by
  obtain ⟨col, row⟩ := p
  simp only [keyAt?, getElem?_concat, LayoutPos.mk.injEq]
  by_cases hrow : rows.length = row
  · by_cases hcol : (rowKeys slots).length = col
    · simp [hrow, hcol, rowKeys_concat_key]
    · simp [hrow, hcol, rowKeys_concat_key, getElem?_concat]
  · simp [hrow]

theorem keyAt?_concat_space (rows : List (List Slot)) (slots : List Slot) (p : LayoutPos) :
    keyAt? ⟨rows ++ [slots ++ [.space]]⟩ p = keyAt? ⟨rows ++ [slots]⟩ p := by
  by_cases hrow : rows.length = p.row
  · simp [keyAt?, hrow, rowKeys_concat_space]
  · simp [keyAt?, getElem?_concat, hrow]

theorem layoutOf?_concat_key (rows : List (List Slot)) (slots : List Slot) (column : Nat)
    (q : PhysicalPos) :
    layoutOf? ⟨rows ++ [slots ++ [.key column]]⟩ q =
      if ⟨slots.length, rows.length⟩ = q then some ⟨(rowKeys slots).length, rows.length⟩
      else layoutOf? ⟨rows ++ [slots]⟩ q := by
  obtain ⟨col, row⟩ := q
  simp only [layoutOf?, getElem?_concat, PhysicalPos.mk.injEq]
  by_cases hrow : rows.length = row
  · by_cases hcol : slots.length = col
    · -- The cells before it stand in other columns.
      have hnone : (rowKeys slots).findIdx? (fun x => x.1 == col) = none := by
        apply List.findIdx?_eq_none_iff.mpr
        intro x hx
        have hlt := fst_lt_of_mem_rowKeys hx
        exact beq_eq_false_iff_ne.mpr (by omega)
      simp [hrow, hcol, rowKeys_concat_key, List.findIdx?_append, hnone]
    · simp [hrow, hcol, rowKeys_concat_key, List.findIdx?_append]
  · simp [hrow]

theorem layoutOf?_concat_space (rows : List (List Slot)) (slots : List Slot) (q : PhysicalPos) :
    layoutOf? ⟨rows ++ [slots ++ [.space]]⟩ q = layoutOf? ⟨rows ++ [slots]⟩ q := by
  by_cases hrow : rows.length = q.row
  · simp [layoutOf?, hrow, rowKeys_concat_space]
  · simp [layoutOf?, getElem?_concat, hrow]

/-- A row that has no cells yet shows nothing. -/
theorem slotAt?_concat_nil (rows : List (List Slot)) (q : PhysicalPos) :
    slotAt? ⟨rows ++ [[]]⟩ q = slotAt? ⟨rows⟩ q := by
  by_cases hrow : rows.length = q.row
  · simp [slotAt?, hrow]
  · simp [slotAt?, getElem?_concat, hrow]

theorem keyAt?_concat_nil (rows : List (List Slot)) (p : LayoutPos) :
    keyAt? ⟨rows ++ [[]]⟩ p = keyAt? ⟨rows⟩ p := by
  by_cases hrow : rows.length = p.row
  · simp [keyAt?, rowKeys, hrow]
  · simp [keyAt?, getElem?_concat, hrow]

theorem layoutOf?_concat_nil (rows : List (List Slot)) (q : PhysicalPos) :
    layoutOf? ⟨rows ++ [[]]⟩ q = layoutOf? ⟨rows⟩ q := by
  by_cases hrow : rows.length = q.row
  · simp [layoutOf?, rowKeys, hrow]
  · simp [layoutOf?, getElem?_concat, hrow]

end Keyplan.Layout
