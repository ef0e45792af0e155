import Keyplan.Proofs.Layout.Maps

/-!
# Coherence — the maps of a recorded layout fit together

Physical cells that are no spacers and layout positions are in bijection, row by row and from left
to right, and every layout position has a switch of its own. So the layout position of a switch is
the same in whatever order the keys are searched.
-/

namespace Keyplan.LayoutMaps

open Outcome

/-- The layout positions: the keys of each row, numbered from the left. -/
def HasKey (m : LayoutMaps) (p : LayoutPos) : Prop :=
  p.row < m.height ∧ p.col < m.rowKeys.getD p.row 0

/-- The four maps and the row counts of a layout agree with each other. -/
structure Coherent (m : LayoutMaps) : Prop where
  /-- The physical cells are those of a grid, and each is a spacer or a key with a switch. -/
  grid : ∀ q, (m.physToMatrix.get? q = some .space ∨
    ∃ s, m.physToMatrix.get? q = some (.located s)) ↔ q.col < m.width ∧ q.row < m.height
  /-- There is a number of keys for each row. -/
  counts : m.rowKeys.length = m.height
  /-- Layout positions have physical cells, and physical cells with a key have layout positions. -/
  physical : ∀ p, (m.layoutToPhys.get? p).isSome ↔ m.HasKey p
  layout : ∀ q, (m.physToLayout.get? q).isSome ↔ ∃ s, m.physToMatrix.get? q = some (.located s)
  inverse : ∀ p q, m.layoutToPhys.get? p = some q ↔ m.physToLayout.get? q = some p
  row_eq : ∀ p q, m.layoutToPhys.get? p = some q → q.row = p.row
  increasing : ∀ p p' q q', p.row = p'.row → p.col < p'.col → m.layoutToPhys.get? p = some q →
    m.layoutToPhys.get? p' = some q' → q.col < q'.col
  /-- Layout positions have the switches of their physical cells, and no two have the same one. -/
  matrix : ∀ p, (m.layoutToMatrix.get? p).isSome ↔ m.HasKey p
  agree : ∀ p, m.layoutToMatrix.get? p = (m.layoutToPhys.get? p).bind m.physToMatrix.get?
  injective : ∀ p p' k, m.layoutToMatrix.get? p = some k → m.layoutToMatrix.get? p' = some k → p = p'
  bounds : ∀ p k, m.layoutToMatrix.get? p = some k → ∃ s, k = .located s ∧ s.col < m.width ∧
    s.row < m.height ∧ s.col ≤ maxCoordinate ∧ s.row ≤ maxCoordinate
  /-- Looking up a switch is the inverse of looking up a layout position, in whatever order the
  keys are searched. -/
  layoutAt : ∀ order, order.Perm m.layoutToMatrix →
    ∀ p s, layoutAt? order s = some p ↔ m.matrixAt? p = some s

variable {l : Layout} {m : LayoutMaps} {p : LayoutPos} {q : PhysicalPos} {s : MatrixPos}

namespace Shows

theorem hasKey_iff (h : m.Shows l) (p : LayoutPos) : m.HasKey p ↔ l.HasKey p := by
  rw [HasKey, h.height, h.rowKeys]
  rfl

/-- A switch is found at the same layout position in whatever order the keys are searched. -/
theorem layoutAt?_eq (h : m.Shows l) (hl : l.WellFormed) {order : List (LayoutPos × KeyAt)}
    (horder : order.Perm m.layoutToMatrix) (s : MatrixPos) : layoutAt? order s = l.layoutAt? s := by
  unfold layoutAt?
  cases hfind : order.find? (fun entry => decide (entry.2.matrix? = some s)) with
  | some entry =>
    obtain ⟨p, k⟩ := entry
    have hmem := horder.mem_iff.mp (List.mem_of_find?_eq_some hfind)
    obtain ⟨q, s', hkey, rfl⟩ :=
      h.layoutToMatrix_eq_some_iff.mp (OrderedMap.get?_of_mem h.nodup hmem)
    have hfound := List.find?_some hfind
    obtain rfl : s' = s := Option.some.inj (of_decide_eq_true hfound)
    exact (hl.layoutAt?_eq_some_iff.mpr (Layout.matrixAt?_eq_some_iff.mpr ⟨q, hkey⟩)).symm
  | none =>
    -- A key on the switch would have been found.
    cases hat : l.layoutAt? s with
    | none => rfl
    | some p =>
      obtain ⟨q, hkey⟩ := Layout.matrixAt?_eq_some_iff.mp (hl.layoutAt?_eq_some_iff.mp hat)
      have hget := h.layoutToMatrix_eq_some_iff.mpr ⟨q, s, hkey, rfl⟩
      have hmem := horder.mem_iff.mpr (OrderedMap.mem_of_get? hget)
      exact absurd (decide_eq_true rfl) (List.find?_eq_none.mp hfind _ hmem)

theorem coherent (h : m.Shows l) (hl : l.WellFormed) : m.Coherent where
  grid := by
    intro q
    rw [h.width, h.height, ← hl.isSome_slotAt?_iff, h.physToMatrix]
    cases l.slotAt? q with
    | none => simp
    | some slot => cases slot <;> simp [KeyAt.ofSlot]
  counts := by
    rw [h.rowKeys, h.height]
    exact Layout.length_keyCounts l
  physical := by
    intro p
    rw [h.layoutToPhys, h.hasKey_iff, ← Layout.isSome_keyAt?_iff, Layout.physicalAt?,
      Option.isSome_map]
  layout := by
    intro q
    simp only [h.physToLayout, h.physToMatrix_eq_located_iff, Option.isSome_iff_exists,
      Layout.layoutOf?_eq_some_iff]
    exact exists_comm
  inverse := by
    intro p q
    rw [h.layoutToPhys, h.physToLayout, Layout.physicalAt?_eq_some_iff,
      Layout.layoutOf?_eq_some_iff]
  row_eq := by
    intro p q hp
    rw [h.layoutToPhys] at hp
    obtain ⟨s, hkey⟩ := Layout.physicalAt?_eq_some_iff.mp hp
    exact (Layout.keyAt?_eq_some_iff.mp hkey).2.1
  increasing := by
    intro p p' q q'
    rw [h.layoutToPhys, h.layoutToPhys]
    exact Layout.physicalAt?_increasing
  matrix := by
    intro p
    rw [h.layoutToMatrix, h.hasKey_iff, ← Layout.isSome_keyAt?_iff, Option.isSome_map]
  agree := by
    intro p
    rw [h.layoutToMatrix, h.layoutToPhys, Layout.physicalAt?]
    cases hkey : l.keyAt? p with
    | none => rfl
    | some key => exact (h.physToMatrix_eq_located_iff.mpr ⟨p, hkey⟩).symm
  injective := by
    intro p p' k hp hp'
    obtain ⟨q, s, hkey, rfl⟩ := h.layoutToMatrix_eq_some_iff.mp hp
    obtain ⟨q', s', hkey', hs⟩ := h.layoutToMatrix_eq_some_iff.mp hp'
    obtain rfl := KeyAt.located.inj hs
    exact hl.keyAt?_inj hkey hkey'
  bounds := by
    intro p k hp
    obtain ⟨q, s, hkey, rfl⟩ := h.layoutToMatrix_eq_some_iff.mp hp
    obtain ⟨hrow, -, hcol, -, hs⟩ := hl.bounds hkey
    have hwidth := hl.width_le
    have hheight := hl.height_le
    rw [h.width, h.height]
    exact ⟨s, rfl, hcol, by omega, by omega, by omega⟩
  layoutAt := by
    intro order horder p s
    rw [h.layoutAt?_eq hl horder, h.matrixAt?_eq]
    exact hl.layoutAt?_eq_some_iff

end Shows

/-- A block is recorded exactly when it is resolved, failures are the same, and the maps show the
resolved layout. They fit together, and the height is the number of rows of the block. -/
theorem resolve_coherent (block : LayoutBlock) :
    Pairs Shows (Layout.resolve block) (resolve block) ∧
      ∀ m, resolve block = .ok m → m.Coherent ∧ m.height = block.rows.length := by
  have hpairs := resolve_pairs block
  refine ⟨hpairs, fun m hm => ?_⟩
  rw [hm] at hpairs
  cases hl : Layout.resolve block with
  | error d =>
    rw [hl] at hpairs
    cases hpairs
  | ok l =>
    rw [hl] at hpairs
    have hshows : m.Shows l := by
      cases hpairs with
      | ok h => exact h
    obtain ⟨hwell, -, hheight, -⟩ := Layout.resolve_eq_ok hl
    exact ⟨hshows.coherent hwell, hshows.height.trans hheight⟩

/-- Two keys that are wired crosswise around a spacer, above a row of three keys, with the keys
searched from the last one on. -/
theorem resolve_coherent_crosswise : ∃ m : LayoutMaps,
    resolve { rows := [{ items := [⟨.remap 2, {}⟩, ⟨.spaces 1, {}⟩, ⟨.remap 0, {}⟩] },
      { items := [⟨.keys 3, {}⟩] }] } = .ok m ∧ m.Coherent ∧
      layoutAt? m.layoutToMatrix.reverse ⟨2, 0⟩ = some ⟨0, 0⟩ ∧
      m.physToLayout.get? ⟨2, 0⟩ = some ⟨1, 0⟩ := by
  have hrun : ((resolve { rows := [{ items := [⟨.remap 2, {}⟩, ⟨.spaces 1, {}⟩, ⟨.remap 0, {}⟩] },
      { items := [⟨.keys 3, {}⟩] }] }).toOption.map fun m =>
        (layoutAt? m.layoutToMatrix.reverse ⟨2, 0⟩, m.physToLayout.get? ⟨2, 0⟩)) =
      some (some ⟨0, 0⟩, some ⟨1, 0⟩) := by decide
  obtain ⟨m, hm, hreads⟩ := Option.map_eq_some_iff.mp hrun
  have hresolve := toOption_eq_some_iff.mp hm
  obtain ⟨hswitch, hcell⟩ := Prod.mk.inj hreads
  exact ⟨m, hresolve, ((resolve_coherent _).2 m hresolve).1, hswitch, hcell⟩

end Keyplan.LayoutMaps
