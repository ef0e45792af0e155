import Keyplan.Proofs.Concatenation
import Keyplan.Proofs.Layout.Coordinates

/-!
# Numbering — the switches of a layout row by row

Keys are numbered row by row and from left to right. The switches of all keys, listed in this order,
have the number of their key, and neighbours in a row are neighbours in the list.
-/

namespace Keyplan.Layout

def rowSwitches (entry : List Slot × Nat) : List MatrixPos :=
  (rowKeys entry.1).map fun key => ⟨key.2, entry.2⟩

def switches (l : Layout) : List MatrixPos :=
  l.rows.zipIdx.flatMap rowSwitches

/-- The number of the key at a layout position: the keys of the rows above it are counted, and those
on its left. -/
def keyNumber (l : Layout) (p : LayoutPos) : Nat :=
  (l.keyCounts.take p.row).sum + p.col

variable {l : Layout} {p : LayoutPos} {m : MatrixPos}

theorem keyIndex_eq_keyNumber (l : Layout) (p : LayoutPos) :
    l.keyIndex p.col p.row = l.keyNumber p := by
  rw [keyIndex, keys, Int.toNat_natCast, List.length_flatMap, keyNumber, keyCounts, List.map_take]
  rfl

theorem length_rowSwitches (l : Layout) :
    (l.rows.zipIdx.map fun entry => (rowSwitches entry).length) = l.keyCounts := by
  have hrows := congrArg (List.map fun row => (rowKeys row).length) (List.zipIdx_map_fst 0 l.rows)
  rw [List.map_map] at hrows
  unfold rowSwitches keyCounts
  simp only [List.length_map]
  exact hrows

/-- The switch under a layout position stands in its row. -/
theorem rowSwitches_getElem? (h : l.matrixAt? p = some m) : ∃ slots,
    l.rows.zipIdx[p.row]? = some (slots, p.row) ∧
      (rowSwitches (slots, p.row))[p.col]? = some m := by
  obtain ⟨q, hq⟩ := matrixAt?_eq_some_iff.mp h
  obtain ⟨⟨slots, hslots, hkey⟩, -, hrow⟩ := keyAt?_eq_some_iff.mp hq
  refine ⟨slots, ?_, ?_⟩
  · rw [List.getElem?_zipIdx, hslots]
    simp
  · rw [rowSwitches, List.getElem?_map, hkey, ← hrow]
    rfl

theorem switches_getElem? (h : l.matrixAt? p = some m) : l.switches[l.keyNumber p]? = some m := by
  obtain ⟨slots, hslots, hm⟩ := rowSwitches_getElem? h
  have hstart : Concatenation.start rowSwitches l.rows.zipIdx p.row =
      (l.keyCounts.take p.row).sum := by
    rw [Concatenation.start, length_rowSwitches]
  rw [switches, keyNumber, ← hstart,
    Concatenation.getElem?_flatMap hslots (List.getElem?_eq_some_iff.mp hm).1, hm]

end Keyplan.Layout
