import Keyplan.Proofs.Guarded
import Keyplan.Proofs.OrderedMap

/-!
# Guarded grids — writing cells by row and column

A grid is filled by writing one cell after the other. A grid whose cells are looked up in a map
shows that map, and writing a cell that was not written before shows the map with one more entry.
Such a write hits the grid when the row has the column.
-/

namespace Keyplan.Guarded

variable {α κ : Type} [DecidableEq κ]

def writeCell (grid : List (List α)) (row col : Nat) (a : α) : Guarded (List (List α)) := do
  let cells ← item grid row
  let cells ← update cells col fun _ => a
  update grid row fun _ => cells

/-- The grid with the given number of cells in each row that shows a map: a cell without an entry is
blank. -/
def shown (counts : List Nat) (place : Nat → Nat → κ) (blank : α) (m : OrderedMap κ α) :
    List (List α) :=
  counts.zipIdx.map fun x => (List.range x.1).map fun col => (m.get? (place col x.2)).getD blank

variable {counts : List Nat} {place : Nat → Nat → κ} {blank : α} {m : OrderedMap κ α}

theorem shown_getElem? (row : Nat) :
    (shown counts place blank m)[row]? = counts[row]?.map fun n =>
      (List.range n).map fun col => (m.get? (place col row)).getD blank := by
  simp [shown, Option.map_map, Function.comp_def]

theorem shown_nil (counts : List Nat) (place : Nat → Nat → κ) (blank : α) :
    shown counts place blank [] = counts.map fun n => List.replicate n blank := by
  refine List.ext_getElem? fun row => ?_
  rw [shown_getElem?, List.getElem?_map]
  congr 1
  funext n
  show (List.range n).map (fun _ => blank) = _
  rw [List.map_const', List.length_range]

theorem writeCell_shown (hplace : ∀ {c r c' r'}, place c r = place c' r' → c = c' ∧ r = r')
    {row col n : Nat} (hrow : counts[row]? = some n) (hcol : col < n)
    (hfresh : place col row ∉ OrderedMap.keys m) (a : α) :
    writeCell (shown counts place blank m) row col a =
      pure (shown counts place blank (m ++ [(place col row, a)])) := by
  have hcells : (shown counts place blank m)[row]? =
      some ((List.range n).map fun col => (m.get? (place col row)).getD blank) := by
    rw [shown_getElem?, hrow]
    rfl
  have hcell : ((List.range n).map fun col => (m.get? (place col row)).getD blank)[col]? =
      some ((m.get? (place col row)).getD blank) := by
    rw [List.getElem?_map, List.getElem?_range hcol]
    rfl
  unfold writeCell
  rw [item_eq hcells, pure_bind, update_eq hcell, pure_bind, update_eq hcells]
  congr 1
  -- Every other cell looks up another entry.
  have hget : ∀ c r, OrderedMap.get? (m ++ [(place col row, a)]) (place c r) =
      if c = col ∧ r = row then some a else m.get? (place c r) := by
    intro c r
    rw [← OrderedMap.insert_of_not_mem a hfresh, OrderedMap.get?_insert]
    by_cases hsame : c = col ∧ r = row
    · rw [if_pos hsame, if_pos (by rw [hsame.1, hsame.2])]
    · rw [if_neg hsame, if_neg fun e => hsame ⟨(hplace e).1.symm, (hplace e).2.symm⟩]
  refine List.ext_getElem? fun r => ?_
  rw [List.getElem?_set, shown_getElem?, shown_getElem?]
  by_cases hr : row = r
  · subst hr
    rw [if_pos rfl, if_pos (List.getElem?_eq_some_iff.mp hcells).1, hrow, Option.map_some]
    congr 1
    refine List.ext_getElem? fun c => ?_
    rw [List.getElem?_set, List.length_map, List.length_range, List.getElem?_map, List.getElem?_map]
    by_cases hc : col = c
    · subst hc
      rw [if_pos rfl, if_pos hcol, List.getElem?_range hcol, Option.map_some, hget,
        if_pos ⟨rfl, rfl⟩]
      rfl
    · rw [if_neg hc]
      by_cases hlt : c < n
      · rw [List.getElem?_range hlt, Option.map_some, Option.map_some, hget,
          if_neg fun e => hc e.1.symm]
      · rw [List.getElem?_eq_none_iff.mpr (by rw [List.length_range]; omega)]
        rfl
  · have hsame : ∀ c, OrderedMap.get? (m ++ [(place col row, a)]) (place c r) =
        m.get? (place c r) := fun c => by rw [hget, if_neg fun e => hr e.2.symm]
    rw [if_neg hr]
    simp only [hsame]

/-- Entries with different keys are written one after the other. -/
theorem foldlM_writeCell (hplace : ∀ {c r c' r'}, place c r = place c' r' → c = c' ∧ r = r')
    (rowOf colOf : κ → Nat) (hkey : ∀ k, place (colOf k) (rowOf k) = k)
    (entries written : OrderedMap κ α) (hnodup : (OrderedMap.keys (written ++ entries)).Nodup)
    (hin : ∀ k ∈ OrderedMap.keys entries, ∃ n, counts[rowOf k]? = some n ∧ colOf k < n) :
    entries.foldlM (fun grid e => writeCell grid (rowOf e.1) (colOf e.1) e.2)
        (shown counts place blank written) =
      pure (shown counts place blank (written ++ entries)) := by
  induction entries generalizing written with
  | nil => rw [List.append_nil]; rfl
  | cons e entries ih =>
    obtain ⟨n, hrow, hcol⟩ := hin e.1 List.mem_cons_self
    have hsplit : written ++ e :: entries = (written ++ [e]) ++ entries := by
      rw [List.append_assoc]
      rfl
    have hfresh : place (colOf e.1) (rowOf e.1) ∉ OrderedMap.keys written := by
      rw [hkey]
      intro hmem
      rw [OrderedMap.keys, List.map_append, List.nodup_append] at hnodup
      exact hnodup.2.2 e.1 hmem e.1 List.mem_cons_self rfl
    rw [List.foldlM_cons, writeCell_shown hplace hrow hcol hfresh, pure_bind, hkey, hsplit]
    exact ih (written ++ [e]) (hsplit ▸ hnodup) fun k hk => hin k (List.mem_cons_of_mem _ hk)

end Keyplan.Guarded
