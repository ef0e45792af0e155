import Keyplan.Proofs.Firmware.Table
import Keyplan.Proofs.Guarded.Grid

/-!
# Guarded firmware — building a table never misses

Each layer is bound through a map by position and then written into a grid of actions. The keys hit
the grid because a layout has its columns below its width, and the chords because the allocator has
added the rows that it handed out slots of.
-/

namespace Keyplan.Guarded

open Firmware Outcome

/-- Binds what is placed at a position. -/
def bindPlaced (b : Binder) (placed : OrderedMap MatrixPos Key) (pos : MatrixPos) :
    Guarded (MatrixPos × Action) := do
  let key ← present (placed.get? pos)
  plain (Table.bindAt b (pos, key))

def bindLayer (b : Binder) (a : Allocator ChordPair) (l : Layer) :
    Guarded (OrderedMap MatrixPos Action × Allocator ChordPair) := do
  let (chordKeys, a') ← plain (Table.placeChords a l.chords)
  let placed := Table.placeKeys chordKeys l.keys
  let order := OrderedMap.keys placed
  let keys ← (order.filter fun pos => !a'.isExtra pos.row).mapM (bindPlaced b placed)
  let chords ← (order.filter fun pos => a'.isExtra pos.row).mapM (bindPlaced b placed)
  return (keys ++ chords, a')

def bindLayers (b : Binder) (a : Allocator ChordPair) :
    List Layer → Guarded (List (OrderedMap MatrixPos Action) × Allocator ChordPair)
  | [] => return ([], a)
  | l :: rest => do
    let (bound, a') ← bindLayer b a l
    let (others, a'') ← bindLayers b a' rest
    return (bound :: others, a'')

/-- Writes the actions of a layer into a grid in which nothing does anything. -/
def writeGrid (rows width : Nat) (bound : OrderedMap MatrixPos Action) :
    Guarded (List (List Action)) :=
  bound.foldlM (fun grid e => writeCell grid e.1.row e.1.col e.2)
    (List.replicate rows (List.replicate width .noOp))

def buildTable (m : Keymap) : Guarded Table := do
  let binder ← plain (Binder.ofKeymap m)
  let (bound, a) ← bindLayers binder
    { width := m.layout.width, height := m.layout.height } m.layers
  let rows := m.layout.height + a.extraRows
  let layers ← bound.mapM (writeGrid rows m.layout.width)
  return {
    width := m.layout.width
    rows := rows
    layerNames := m.layerNames
    layers := layers
    chords := a.slots
    customEvent := m.options.getD .firmware "custom_event" Table.defaultCustomEvent }

/-! ## Binding -/

theorem nodup_placeKeys (keys : List PlacedKey) {placed : OrderedMap MatrixPos Key}
    (h : (OrderedMap.keys placed).Nodup) :
    (OrderedMap.keys (Table.placeKeys placed keys)).Nodup := by
  induction keys generalizing placed with
  | nil => exact h
  | cons k keys ih => exact ih (OrderedMap.nodup_insert h)

theorem nodup_placeChords {a a' : Allocator ChordPair} {chords : List PlacedChord}
    {placed : OrderedMap MatrixPos Key} (h : Table.placeChords a chords = .ok (placed, a')) :
    (OrderedMap.keys placed).Nodup := by
  -- Entries are inserted, which never sets a key twice.
  have hfrom : ∀ (chords : List PlacedChord)
      (start result : OrderedMap MatrixPos Key × Allocator ChordPair),
      (OrderedMap.keys start.1).Nodup →
      chords.foldlM (fun x c => x.2.allocate ⟨c.left, c.right⟩ c.chord.span >>= fun y =>
        pure (x.1.insert y.1 c.chord.key, y.2)) start = (.ok result : Except Diagnostic _) →
      (OrderedMap.keys result.1).Nodup := by
    intro chords
    induction chords with
    | nil =>
      intro start result hstart hresult
      rw [← Except.ok.inj hresult]
      exact hstart
    | cons c chords ih =>
      intro start result hstart hresult
      rw [List.foldlM_cons] at hresult
      obtain ⟨next, hnext, hresult⟩ := bind_eq_ok_iff.mp hresult
      obtain ⟨slot, -, hnext⟩ := bind_eq_ok_iff.mp hnext
      obtain rfl := pure_eq_ok_iff.mp hnext
      exact ih _ result (OrderedMap.nodup_insert hstart) hresult
  exact hfrom chords ([], a) (placed, a') List.nodup_nil h

/-- Every position that was written has a key to bind. -/
theorem bindPlaced_follows (b : Binder) {placed : OrderedMap MatrixPos Key}
    (h : (OrderedMap.keys placed).Nodup) (p : MatrixPos → Bool) :
    Follows Eq (((OrderedMap.keys placed).filter p).mapM (bindPlaced b placed))
      ((placed.filter fun e => p e.1).mapM (Table.bindAt b)) := by
  -- Positions are looked up in the whole map, so the induction is over a part of it.
  have hentries : ∀ entries : OrderedMap MatrixPos Key, (∀ e ∈ entries, e ∈ placed) →
      Follows Eq ((entries.map (·.1)).mapM (bindPlaced b placed))
        (entries.mapM (Table.bindAt b)) := by
    intro entries hmem
    induction entries with
    | nil => exact .ok rfl
    | cons e entries ih =>
      have hget : placed.get? e.1 = some e.2 :=
        OrderedMap.get?_of_mem h (hmem e List.mem_cons_self)
      rw [List.map_cons, List.mapM_cons, List.mapM_cons, bindPlaced, hget]
      refine (Follows.plain (Table.bindAt b e)).bind fun bound _ _ hbound => ?_
      refine (ih fun x hx => hmem x (List.mem_cons_of_mem e hx)).bind fun others _ _ hothers => ?_
      exact .ok (by rw [hbound, hothers])
  have hfilter : (OrderedMap.keys placed).filter p =
      (placed.filter fun e => p e.1).map (·.1) := List.filter_map
  rw [hfilter]
  exact hentries _ fun e he => (List.mem_filter.mp he).1

theorem bindLayer_follows (b : Binder) (a : Allocator ChordPair) (l : Layer) :
    Follows Eq (bindLayer b a l) (Table.bindLayer b a l) := by
  unfold bindLayer Table.bindLayer
  refine (Follows.plain (Table.placeChords a l.chords)).bind fun placed _ hplaced heq => ?_
  subst heq
  have hnodup := nodup_placeKeys l.keys (nodup_placeChords hplaced)
  refine (bindPlaced_follows b hnodup _).bind fun keys _ _ hkeys => ?_
  refine (bindPlaced_follows b hnodup _).bind fun chords _ _ hchords => ?_
  exact .ok (by rw [hkeys, hchords])

theorem bindLayers_follows (b : Binder) (layers : List Layer) (a : Allocator ChordPair) :
    Follows Eq (bindLayers b a layers) (Table.bindLayers b a layers) := by
  induction layers generalizing a with
  | nil => exact .ok rfl
  | cons l layers ih =>
    refine (bindLayer_follows b a l).bind fun bound _ _ hbound => ?_
    subst hbound
    refine (ih bound.2).bind fun others _ _ hothers => ?_
    subst hothers
    exact .ok rfl

/-! ## Writing -/

theorem shown_grid (rows width : Nat) (bound : OrderedMap MatrixPos Action) :
    shown (List.replicate rows width) MatrixPos.mk .noOp bound = Table.grid rows width bound := by
  refine List.ext_getElem? fun row => ?_
  rw [shown_getElem?, List.getElem?_replicate, Table.grid, List.getElem?_map]
  by_cases hrow : row < rows
  · rw [if_pos hrow, List.getElem?_range hrow, Option.map_some, Option.map_some]
    have hinRow : ∀ col, OrderedMap.get? (bound.filter fun e => e.1.row == row) ⟨col, row⟩ =
        bound.get? ⟨col, row⟩ := fun col =>
      OrderedMap.get?_filter (p := fun p : MatrixPos => p.row == row) (beq_self_eq_true row)
    simp only [hinRow]
  · rw [if_neg hrow, List.getElem?_eq_none_iff.mpr (by rw [List.length_range]; omega)]
    rfl

theorem writeGrid_eq {rows width : Nat} {bound : OrderedMap MatrixPos Action}
    (hnodup : (OrderedMap.keys bound).Nodup)
    (hbound : ∀ pos ∈ OrderedMap.keys bound, pos.row < rows ∧ pos.col < width) :
    writeGrid rows width bound = pure (Table.grid rows width bound) := by
  -- A grid in which nothing does anything shows the empty map.
  have hblank : List.replicate rows (List.replicate width Action.noOp) =
      shown (List.replicate rows width) MatrixPos.mk .noOp [] := by
    rw [shown_nil, List.map_replicate]
  have hplace : ∀ {c r c' r'}, MatrixPos.mk c r = ⟨c', r'⟩ → c = c' ∧ r = r' :=
    fun e => MatrixPos.mk.inj e
  rw [writeGrid, hblank, ← shown_grid]
  refine foldlM_writeCell hplace MatrixPos.row MatrixPos.col (fun _ => rfl) bound [] hnodup
    fun pos hpos => ⟨width, ?_, (hbound pos hpos).2⟩
  rw [List.getElem?_replicate, if_pos (hbound pos hpos).1]

theorem buildTable_follows {m : Keymap} (hm : m.WellFormed) :
    Follows Eq (buildTable m) (Table.build m) := by
  unfold buildTable Table.build
  refine (Follows.plain (Binder.ofKeymap m)).bind fun binder _ _ hbinder => ?_
  subst hbinder
  refine (bindLayers_follows binder m.layers _).bind fun bound _ hbound heq => ?_
  subst heq
  obtain ⟨ha, -, hlen, hbinds⟩ := Table.bindLayers_eq_ok hm.width_pos hm.layout m.layers
    (fun l hl => hm.placedOn hl) hbound (Allocator.counted_empty _ _)
  have hgrids : bound.1.mapM (writeGrid (m.layout.height + bound.2.extraRows) m.layout.width) =
      pure (bound.1.map (Table.grid (m.layout.height + bound.2.extraRows) m.layout.width)) := by
    refine mapM_eq_pure fun layer hlayer => ?_
    -- The layer that was bound has the number of one of the keymap.
    obtain ⟨i, hi⟩ := List.getElem?_of_mem hlayer
    have hlt : i < m.layers.length := hlen ▸ (List.getElem?_eq_some_iff.mp hi).1
    have hl := List.getElem?_eq_getElem hlt
    obtain ⟨layer', hi', hbinds⟩ := hbinds i _ hl
    obtain rfl := Option.some.inj (hi.symm.trans hi')
    exact writeGrid_eq hbinds.nodup
      (hbinds.bounds hm.width_pos hm.layout (hm.placedOn (List.mem_of_getElem? hl)) ha)
  dsimp only
  rw [hgrids]
  exact .ok rfl

end Keyplan.Guarded
