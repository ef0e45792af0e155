import Keyplan.Layer
import Keyplan.Proofs.Layout.Resolution
import Mathlib.Data.List.Basic

/-!
# Layer placement — keys and chords on the keys of the layout

A resolved layer puts the keys of a row on consecutive layout keys, and a chord between the two
keys it is written between. Hence no two keys of a layer share a switch of the matrix, and no two
chords share a pair of switches.
-/

namespace Keyplan.Layer

open Outcome

/-! ## The items of a row -/

/-- The keys and chords that the items of row `row` become when `col` keys stand before them.
`afterKey` says whether the item right before them is a key. -/
inductive PlacedItems (layout : Layout) (row : Nat) :
    Bool → Nat → List RowItem → List PlacedKey → List PlacedChord → Prop
  | nil {afterKey : Bool} {col : Nat} : PlacedItems layout row afterKey col [] [] []
  | key {afterKey : Bool} {col : Nat} {k : Key} {items : List RowItem} {keys : List PlacedKey}
      {chords : List PlacedChord} {physical : PhysicalPos} {matrix : MatrixPos}
      (under : layout.keyAt? ⟨col, row⟩ = some (physical, matrix))
      (rest : PlacedItems layout row true (col + 1) items keys chords) :
      PlacedItems layout row afterKey col (.key k :: items)
        (⟨k, ⟨col, row⟩, physical, matrix⟩ :: keys) chords
  /-- A chord stands right behind a key and right before one. -/
  | chord {col : Nat} {c : Chord} {k : Key} {items : List RowItem} {keys : List PlacedKey}
      {chords : List PlacedChord} {physical physical' : PhysicalPos} {left right : MatrixPos}
      (underLeft : layout.keyAt? ⟨col, row⟩ = some (physical, left))
      (underRight : layout.keyAt? ⟨col + 1, row⟩ = some (physical', right))
      (rest : PlacedItems layout row false (col + 1) (.key k :: items) keys chords) :
      PlacedItems layout row true (col + 1) (.chord c :: .key k :: items) keys
        (⟨c, left, right, ⟨col, row⟩⟩ :: chords)

def isKey : Option RowItem → Bool
  | some (.key _) => true
  | _ => false

theorem keyUnder_eq_ok_iff {layout : Layout} {p : LayoutPos} {span : Span}
    {found : PhysicalPos × MatrixPos} :
    keyUnder layout p span = .ok found ↔ layout.keyAt? p = some found := by
  unfold keyUnder
  split
  · rename_i found' h
    rw [h, Except.ok.injEq, Option.some.injEq]
  · rename_i h
    rw [h]
    exact ⟨nofun, nofun⟩

/-- A chord is placed exactly when a key stands on both sides of it and both have a layout key
under them. -/
theorem placeChord_eq_ok_iff {layout : Layout} {node : LayerRow} {row col : Nat}
    {previous next : Option RowItem} {c : Chord} {placed : PlacedChord} :
    placeChord layout node row col previous next c = .ok placed ↔
      isKey previous ∧ isKey next ∧ placed.chord = c ∧ placed.leftLayout = ⟨col - 1, row⟩ ∧
        (∃ physical, layout.keyAt? ⟨col - 1, row⟩ = some (physical, placed.left)) ∧
        ∃ physical, layout.keyAt? ⟨col, row⟩ = some (physical, placed.right) := by
  unfold placeChord
  split
  · rename_i k k'
    simp only [isKey, true_and, bind_eq_ok_iff, pure_eq_ok_iff, keyUnder_eq_ok_iff]
    constructor
    · rintro ⟨⟨p, l⟩, hl, ⟨p', r⟩, hr, rfl⟩
      exact ⟨rfl, rfl, ⟨p, hl⟩, p', hr⟩
    · rintro ⟨rfl, hleft, ⟨p, hl⟩, p', hr⟩
      refine ⟨(p, placed.left), hl, (p', placed.right), hr, ?_⟩
      rw [← hleft]
  · rename_i hne
    refine ⟨nofun, ?_⟩
    rintro ⟨hp, hn, -⟩
    exfalso
    unfold isKey at hp hn
    split at hp
    · split at hn
      · exact hne _ _ rfl rfl
      · cases hn
    · cases hp

theorem placeItems_eq_ok_iff {layout : Layout} {node : LayerRow} {row : Nat}
    {previous : Option RowItem} {afterKey : Bool} {col : Nat} (items : List RowItem)
    {keys : List PlacedKey} {chords : List PlacedChord} (hafter : isKey previous = afterKey)
    (hcol : afterKey → 0 < col) :
    placeItems layout node row previous col items = .ok (keys, chords) ↔
      PlacedItems layout row afterKey col items keys chords := by
  -- Of the item before only its being a key matters, and a key before means a column before.
  induction items generalizing previous afterKey col keys chords with
  | nil =>
    rw [placeItems, Except.ok.injEq, Prod.mk.injEq]
    constructor
    · rintro ⟨rfl, rfl⟩
      exact .nil
    · rintro ⟨⟩
      exact ⟨rfl, rfl⟩
  | cons item rest ih =>
    cases item with
    | key k =>
      have hbehind (keys chords) :
          placeItems layout node row (some (.key k)) (col + 1) rest = .ok (keys, chords) ↔
            PlacedItems layout row true (col + 1) rest keys chords :=
        ih rfl fun _ => Nat.succ_pos col
      simp only [placeItems, bind_eq_ok_iff, pure_eq_ok_iff, keyUnder_eq_ok_iff, Prod.exists,
        Prod.mk.injEq, hbehind]
      constructor
      · rintro ⟨physical, matrix, hunder, keys', chords', hrest, rfl, rfl⟩
        exact .key hunder hrest
      · rintro (_ | ⟨hunder, hrest⟩)
        exact ⟨_, _, hunder, _, _, hrest, rfl, rfl⟩
    | chord c =>
      have hbehind (keys chords) :
          placeItems layout node row (some (.chord c)) col rest = .ok (keys, chords) ↔
            PlacedItems layout row false col rest keys chords :=
        ih rfl nofun
      simp only [placeItems, bind_eq_ok_iff, pure_eq_ok_iff, placeChord_eq_ok_iff, Prod.exists,
        Prod.mk.injEq, hafter, hbehind]
      constructor
      · rintro ⟨⟨c', left, right, leftLayout⟩, ⟨rfl, hnext, rfl, hll, ⟨p, hl⟩, p', hr⟩, keys',
          chords', hrest, rfl, rfl⟩
        -- The chord stands behind a key, so its left column does not run below zero.
        obtain ⟨n, rfl⟩ := Nat.exists_eq_succ_of_ne_zero (Nat.pos_iff_ne_zero.mp (hcol rfl))
        cases rest with
        | nil => cases hnext
        | cons next rest =>
          cases next with
          | chord => cases hnext
          | key k =>
            subst hll
            exact .chord hl hr hrest
      · rintro (_ | _ | ⟨hl, hr, hrest⟩)
        exact ⟨⟨c, _, _, _⟩, ⟨rfl, rfl, rfl, rfl, ⟨_, hl⟩, _, hr⟩, _, _, hrest, rfl, rfl⟩

namespace PlacedItems

variable {layout : Layout} {row : Nat} {afterKey : Bool} {col : Nat} {items : List RowItem}
  {keys : List PlacedKey} {chords : List PlacedChord}

theorem of_mem_keys (h : PlacedItems layout row afterKey col items keys chords) {k : PlacedKey}
    (hk : k ∈ keys) :
    layout.keyAt? k.layout = some (k.physical, k.matrix) ∧ k.layout.row = row ∧
      col ≤ k.layout.col := by
  induction h with
  | nil => cases hk
  | key under rest ih =>
    rcases List.mem_cons.mp hk with rfl | hk
    · exact ⟨under, rfl, Nat.le_refl _⟩
    · obtain ⟨hat, hrow, hle⟩ := ih hk
      exact ⟨hat, hrow, by omega⟩
  | chord underLeft underRight rest ih => exact ih hk

theorem keys_increasing (h : PlacedItems layout row afterKey col items keys chords) :
    keys.Pairwise (·.layout.col < ·.layout.col) := by
  induction h with
  | nil => exact .nil
  | key under rest ih =>
    refine .cons ?_ ih
    intro k hk
    exact (rest.of_mem_keys hk).2.2
  | chord underLeft underRight rest ih => exact ih

/-- A placed chord lies between two keys of the layout. The left one may be the key right before
the items, but only if the items come right behind a key. -/
theorem of_mem_chords (h : PlacedItems layout row afterKey col items keys chords)
    {c : PlacedChord} (hc : c ∈ chords) :
    (∃ physical, layout.keyAt? c.leftLayout = some (physical, c.left)) ∧
      (∃ physical, layout.keyAt? ⟨c.leftLayout.col + 1, row⟩ = some (physical, c.right)) ∧
      c.leftLayout.row = row ∧ col ≤ c.leftLayout.col + afterKey.toNat := by
  induction h with
  | nil => cases hc
  | key under rest ih =>
    obtain ⟨hl, hr, hrow, hle⟩ := ih hc
    refine ⟨hl, hr, hrow, ?_⟩
    simp only [Bool.toNat_true] at hle
    omega
  | chord underLeft underRight rest ih =>
    rcases List.mem_cons.mp hc with rfl | hc
    · exact ⟨⟨_, underLeft⟩, ⟨_, underRight⟩, rfl, Nat.le_refl _⟩
    · obtain ⟨hl, hr, hrow, hle⟩ := ih hc
      refine ⟨hl, hr, hrow, ?_⟩
      simp only [Bool.toNat_false, Bool.toNat_true] at hle ⊢
      omega

theorem key_mem_items (h : PlacedItems layout row afterKey col items keys chords) {k : PlacedKey}
    (hk : k ∈ keys) : .key k.key ∈ items := by
  induction h with
  | nil => cases hk
  | key under rest ih =>
    rcases List.mem_cons.mp hk with rfl | hk
    · exact List.mem_cons_self
    · exact List.mem_cons_of_mem _ (ih hk)
  | chord underLeft underRight rest ih => exact List.mem_cons_of_mem _ (ih hk)

theorem chord_mem_items (h : PlacedItems layout row afterKey col items keys chords)
    {c : PlacedChord} (hc : c ∈ chords) : .chord c.chord ∈ items := by
  induction h with
  | nil => cases hc
  | key under rest ih => exact List.mem_cons_of_mem _ (ih hc)
  | chord underLeft underRight rest ih =>
    rcases List.mem_cons.mp hc with rfl | hc
    · exact List.mem_cons_self
    · exact List.mem_cons_of_mem _ (ih hc)

theorem chords_increasing (h : PlacedItems layout row afterKey col items keys chords) :
    chords.Pairwise (·.leftLayout.col < ·.leftLayout.col) := by
  induction h with
  | nil => exact .nil
  | key under rest ih => exact ih
  | chord underLeft underRight rest ih =>
    refine .cons ?_ ih
    intro c hc
    exact (rest.of_mem_chords hc).2.2.2

end PlacedItems

/-! ## The rows of a layer -/

/-- The keys and chords of the rows of a layer from row `row` on. -/
inductive PlacedRows (layout : Layout) :
    Nat → List LayerRow → List PlacedKey → List PlacedChord → Prop
  | nil {row : Nat} : PlacedRows layout row [] [] []
  | cons {row : Nat} {node : LayerRow} {nodes : List LayerRow} {keys keys' : List PlacedKey}
      {chords chords' : List PlacedChord} (inside : row < layout.height)
      (here : PlacedItems layout row false 0 node.items keys chords)
      (below : PlacedRows layout (row + 1) nodes keys' chords') :
      PlacedRows layout row (node :: nodes) (keys ++ keys') (chords ++ chords')

theorem placeRows_eq_ok_iff {layout : Layout} {name : String} {row : Nat} (nodes : List LayerRow)
    {keys : List PlacedKey} {chords : List PlacedChord} :
    placeRows layout name row nodes = .ok (keys, chords) ↔
      PlacedRows layout row nodes keys chords := by
  induction nodes generalizing row keys chords with
  | nil =>
    rw [placeRows, Except.ok.injEq, Prod.mk.injEq]
    constructor
    · rintro ⟨rfl, rfl⟩
      exact .nil
    · rintro ⟨⟩
      exact ⟨rfl, rfl⟩
  | cons node nodes ih =>
    rw [placeRows]
    -- A row below the layout is refused before its items are placed.
    by_cases hrow : layout.height ≤ row
    · rw [if_pos hrow]
      refine ⟨nofun, ?_⟩
      rintro (_ | ⟨hinside, -, -⟩)
      omega
    · simp only [if_neg hrow, bind_eq_ok_iff, pure_eq_ok_iff, Prod.exists, Prod.mk.injEq]
      have hitems (keys chords) : placeItems layout node row none 0 node.items = .ok (keys, chords)
          ↔ PlacedItems layout row false 0 node.items keys chords :=
        placeItems_eq_ok_iff node.items rfl nofun
      constructor
      · rintro ⟨keys₁, chords₁, hhere, keys₂, chords₂, hbelow, rfl, rfl⟩
        exact .cons (by omega) ((hitems _ _).mp hhere) (ih.mp hbelow)
      · rintro (_ | ⟨-, hhere, hbelow⟩)
        exact ⟨_, _, (hitems _ _).mpr hhere, _, _, ih.mpr hbelow, rfl, rfl⟩

namespace PlacedRows

variable {layout : Layout} {row : Nat} {nodes : List LayerRow} {keys : List PlacedKey}
  {chords : List PlacedChord}

theorem of_mem_keys (h : PlacedRows layout row nodes keys chords) {k : PlacedKey} (hk : k ∈ keys) :
    layout.keyAt? k.layout = some (k.physical, k.matrix) ∧ row ≤ k.layout.row := by
  induction h with
  | nil => cases hk
  | cons inside here below ih =>
    rcases List.mem_append.mp hk with hk | hk
    · obtain ⟨hat, hrow, -⟩ := here.of_mem_keys hk
      exact ⟨hat, Nat.le_of_eq hrow.symm⟩
    · obtain ⟨hat, hrow⟩ := ih hk
      exact ⟨hat, by omega⟩

theorem of_mem_chords (h : PlacedRows layout row nodes keys chords) {c : PlacedChord}
    (hc : c ∈ chords) :
    (∃ physical, layout.keyAt? c.leftLayout = some (physical, c.left)) ∧
      (∃ physical, layout.keyAt? ⟨c.leftLayout.col + 1, c.leftLayout.row⟩ =
        some (physical, c.right)) ∧ row ≤ c.leftLayout.row := by
  induction h with
  | nil => cases hc
  | cons inside here below ih =>
    rcases List.mem_append.mp hc with hc | hc
    · obtain ⟨hl, hr, hrow, -⟩ := here.of_mem_chords hc
      exact ⟨hl, hrow ▸ hr, Nat.le_of_eq hrow.symm⟩
    · obtain ⟨hl, hr, hrow⟩ := ih hc
      exact ⟨hl, hr, by omega⟩

theorem keys_nodup (h : PlacedRows layout row nodes keys chords) :
    (keys.map (·.layout)).Nodup := by
  induction h with
  | nil => exact .nil
  | cons inside here below ih =>
    rw [List.map_append, List.nodup_append]
    refine ⟨?_, ih, ?_⟩
    · refine List.Pairwise.map _ ?_ here.keys_increasing
      intro k k' hlt e
      exact Nat.ne_of_lt hlt (congrArg LayoutPos.col e)
    · -- The rows below have larger numbers.
      intro p hp q hq e
      obtain ⟨k, hk, rfl⟩ := List.mem_map.mp hp
      obtain ⟨k', hk', rfl⟩ := List.mem_map.mp hq
      have hrow := (here.of_mem_keys hk).2.1
      have hrow' := (below.of_mem_keys hk').2
      rw [e] at hrow
      omega

theorem chords_nodup (h : PlacedRows layout row nodes keys chords) :
    (chords.map (·.leftLayout)).Nodup := by
  induction h with
  | nil => exact .nil
  | cons inside here below ih =>
    rw [List.map_append, List.nodup_append]
    refine ⟨?_, ih, ?_⟩
    · refine List.Pairwise.map _ ?_ here.chords_increasing
      intro c c' hlt e
      exact Nat.ne_of_lt hlt (congrArg LayoutPos.col e)
    · intro p hp q hq e
      obtain ⟨c, hc, rfl⟩ := List.mem_map.mp hp
      obtain ⟨c', hc', rfl⟩ := List.mem_map.mp hq
      have hrow := (here.of_mem_chords hc).2.2.1
      have hrow' := (below.of_mem_chords hc').2.2
      rw [e] at hrow
      omega

theorem lt_height (h : PlacedRows layout row nodes keys chords) {i : Nat} {node : LayerRow}
    (hi : nodes[i]? = some node) : row + i < layout.height := by
  induction h generalizing i with
  | nil => cases hi
  | cons inside here below ih =>
    cases i with
    | zero => exact inside
    -- The row is one of those below.
    | succ i =>
      have := ih hi
      omega

theorem items (h : PlacedRows layout row nodes keys chords) {i : Nat} {node : LayerRow}
    (hi : nodes[i]? = some node) :
    PlacedItems layout (row + i) false 0 node.items
      (keys.filter (·.layout.row == row + i)) (chords.filter (·.leftLayout.row == row + i)) := by
  induction h generalizing i with
  | nil => cases hi
  | @cons row node' nodes keys keys' chords chords' inside here below ih =>
    rw [List.filter_append, List.filter_append]
    cases i with
    | zero =>
      obtain rfl := Option.some.inj hi
      -- All of this row's keys are in it, and none of the rows' below.
      have hkeys : keys.filter (·.layout.row == row) = keys :=
        List.filter_eq_self.mpr fun k hk => beq_iff_eq.mpr (here.of_mem_keys hk).2.1
      have hkeys' : keys'.filter (·.layout.row == row) = [] := by
        refine List.filter_eq_nil_iff.mpr fun k hk e => ?_
        have := (below.of_mem_keys hk).2
        have := beq_iff_eq.mp e
        omega
      have hchords : chords.filter (·.leftLayout.row == row) = chords :=
        List.filter_eq_self.mpr fun c hc => beq_iff_eq.mpr (here.of_mem_chords hc).2.2.1
      have hchords' : chords'.filter (·.leftLayout.row == row) = [] := by
        refine List.filter_eq_nil_iff.mpr fun c hc e => ?_
        have := (below.of_mem_chords hc).2.2
        have := beq_iff_eq.mp e
        omega
      rw [Nat.add_zero, hkeys, hkeys', hchords, hchords', List.append_nil, List.append_nil]
      exact here
    | succ i =>
      -- The row lies below, so nothing of this one is in it.
      have hkeys : keys.filter (·.layout.row == row + (i + 1)) = [] := by
        refine List.filter_eq_nil_iff.mpr fun k hk e => ?_
        have := (here.of_mem_keys hk).2.1
        have := beq_iff_eq.mp e
        omega
      have hchords : chords.filter (·.leftLayout.row == row + (i + 1)) = [] := by
        refine List.filter_eq_nil_iff.mpr fun c hc e => ?_
        have := (here.of_mem_chords hc).2.2.1
        have := beq_iff_eq.mp e
        omega
      rw [hkeys, hchords, List.nil_append, List.nil_append]
      have hbelow := ih hi
      rwa [show row + 1 + i = row + (i + 1) by omega] at hbelow

end PlacedRows

/-! ## Reading the items of a row off its keys and chords -/

/-- The key at a layout position, if there is one. -/
def keyItem (keys : List PlacedKey) (p : LayoutPos) : List RowItem :=
  ((keys.find? fun k => decide (k.layout = p)).map fun k => RowItem.key k.key).toList

/-- The chord behind the key at a layout position, if there is one. -/
def chordItem (chords : List PlacedChord) (p : LayoutPos) : List RowItem :=
  ((chords.find? fun c => decide (c.leftLayout = p)).map fun c => RowItem.chord c.chord).toList

theorem keyItem_cons {k : PlacedKey} {keys : List PlacedKey} {p : LayoutPos} :
    keyItem (k :: keys) p = if k.layout = p then [.key k.key] else keyItem keys p := by
  unfold keyItem
  rw [List.find?_cons]
  split <;> rename_i h <;> simp_all

theorem chordItem_cons {c : PlacedChord} {chords : List PlacedChord} {p : LayoutPos} :
    chordItem (c :: chords) p =
      if c.leftLayout = p then [.chord c.chord] else chordItem chords p := by
  unfold chordItem
  rw [List.find?_cons]
  split <;> rename_i h <;> simp_all

/-- The items of a row are its keys from left to right, each with the chord behind it. -/
theorem PlacedItems.items_eq {layout : Layout} {row : Nat} {afterKey : Bool} {col : Nat}
    {items : List RowItem} {keys : List PlacedKey} {chords : List PlacedChord}
    (h : PlacedItems layout row afterKey col items keys chords) {n : Nat}
    (hn : ∀ c, (layout.keyAt? ⟨c, row⟩).isSome → c < n) (hcol : afterKey → 0 < col) :
    items = (if afterKey then chordItem chords ⟨col - 1, row⟩ else []) ++
      (List.range' col (n - col)).flatMap fun c =>
        keyItem keys ⟨c, row⟩ ++ chordItem chords ⟨c, row⟩ := by
  induction h with
  | nil => simp [keyItem, chordItem]
  | @key afterKey col k items keys chords physical matrix under rest ih =>
    have hlt := hn col (by rw [under]; rfl)
    -- No chord of this key or a later one lies behind an earlier key.
    have hbefore : (if afterKey then chordItem chords ⟨col - 1, row⟩ else []) = [] := by
      split
      · have := hcol ‹_›
        unfold chordItem
        rw [List.find?_eq_none.mpr, Option.map_none, Option.toList_none]
        intro c hc e
        have hle := (rest.of_mem_chords hc).2.2.2
        have hleft := congrArg LayoutPos.col (of_decide_eq_true e)
        simp only [Bool.toNat_true] at hle hleft
        omega
      · rfl
    -- The first column is that of this key; later columns find the later keys.
    have hrange : List.range' col (n - col) = col :: List.range' (col + 1) (n - (col + 1)) := by
      rw [show n - col = n - (col + 1) + 1 by omega, List.range'_succ]
    have hrest : (List.range' (col + 1) (n - (col + 1))).flatMap (fun c =>
        keyItem (⟨k, ⟨col, row⟩, physical, matrix⟩ :: keys) ⟨c, row⟩ ++
          chordItem chords ⟨c, row⟩) =
        (List.range' (col + 1) (n - (col + 1))).flatMap fun c =>
          keyItem keys ⟨c, row⟩ ++ chordItem chords ⟨c, row⟩ := by
      refine List.flatMap_congr fun c hc => ?_
      have hlt' := (List.mem_range'_1.mp hc).1
      rw [keyItem_cons, if_neg (by simp only [LayoutPos.mk.injEq]; omega)]
    rw [hbefore, List.nil_append, hrange, List.flatMap_cons, hrest, keyItem_cons, if_pos rfl,
      ih fun _ => Nat.succ_pos col]
    simp
  | @chord col c k items keys chords physical physical' left right underLeft underRight rest ih =>
    -- The chord is found behind the key before it and at no later column.
    have hrest : (List.range' (col + 1) (n - (col + 1))).flatMap (fun d =>
        keyItem keys ⟨d, row⟩ ++
          chordItem (⟨c, left, right, ⟨col, row⟩⟩ :: chords) ⟨d, row⟩) =
        (List.range' (col + 1) (n - (col + 1))).flatMap fun d =>
          keyItem keys ⟨d, row⟩ ++ chordItem chords ⟨d, row⟩ := by
      refine List.flatMap_congr fun d hd => ?_
      have hlt' := (List.mem_range'_1.mp hd).1
      rw [chordItem_cons, if_neg (by simp only [LayoutPos.mk.injEq]; omega)]
    rw [if_pos rfl, chordItem_cons, if_pos (by simp), hrest, ih nofun]
    simp

/-! ## Resolved layers -/

/-- A layer whose keys and chords lie on the keys of a layout. -/
structure PlacedOn (layout : Layout) (l : Layer) : Prop where
  key : ∀ k ∈ l.keys, layout.keyAt? k.layout = some (k.physical, k.matrix)
  keys_nodup : (l.keys.map (·.layout)).Nodup
  left : ∀ c ∈ l.chords, ∃ physical, layout.keyAt? c.leftLayout = some (physical, c.left)
  right : ∀ c ∈ l.chords, ∃ physical,
    layout.keyAt? ⟨c.leftLayout.col + 1, c.leftLayout.row⟩ = some (physical, c.right)
  chords_nodup : (l.chords.map (·.leftLayout)).Nodup

theorem resolve_eq_ok_iff {layout : Layout} {block : LayerBlock} {l : Layer} :
    resolve layout block = .ok l ↔
      l.name = block.name ∧ l.rowCount = block.rows.length ∧
        PlacedRows layout 0 block.rows l.keys l.chords := by
  simp only [resolve, bind_eq_ok_iff, pure_eq_ok_iff, Prod.exists, placeRows_eq_ok_iff]
  constructor
  · rintro ⟨keys, chords, hrows, rfl⟩
    exact ⟨rfl, rfl, hrows⟩
  · rintro ⟨hname, hcount, hrows⟩
    exact ⟨_, _, hrows, by rw [← hname, ← hcount]⟩

theorem placedOn_of_resolve {layout : Layout} {block : LayerBlock} {l : Layer}
    (h : resolve layout block = .ok l) : l.PlacedOn layout := by
  obtain ⟨-, -, hrows⟩ := resolve_eq_ok_iff.mp h
  exact ⟨fun k hk => (hrows.of_mem_keys hk).1, hrows.keys_nodup,
    fun c hc => (hrows.of_mem_chords hc).1, fun c hc => (hrows.of_mem_chords hc).2.1,
    hrows.chords_nodup⟩

theorem resolveAll_eq_ok_iff {layout : Layout} {blocks : List LayerBlock} {layers : List Layer} :
    resolveAll layout blocks = .ok layers ↔
      checkNames [] blocks = .ok () ∧ blocks.mapM (resolve layout) = .ok layers := by
  unfold resolveAll
  rw [bind_eq_ok_iff]
  constructor
  · rintro ⟨⟨⟩, hnames, h⟩
    exact ⟨hnames, h⟩
  · rintro ⟨hnames, h⟩
    exact ⟨(), hnames, h⟩

/-- Names that were checked differ from each other and from those before them. -/
theorem nodup_of_checkNames (seen : List LayerBlock) {blocks : List LayerBlock}
    (h : checkNames seen blocks = .ok ()) (hseen : (seen.map (·.name)).Nodup) :
    ((seen ++ blocks).map (·.name)).Nodup := by
  induction blocks generalizing seen with
  | nil => rwa [List.append_nil]
  | cons b rest ih =>
    rw [checkNames] at h
    cases hfind : seen.find? (·.name == b.name) with
    | some first =>
      rw [hfind] at h
      cases h
    | none =>
      rw [hfind] at h
      rw [List.append_cons]
      apply ih (seen ++ [b]) h
      rw [List.map_append, List.nodup_append]
      refine ⟨hseen, by simp, ?_⟩
      intro name hname name' hname' e
      obtain ⟨b', hb', rfl⟩ := List.mem_map.mp hname
      have hsame : b'.name = b.name := e.trans (List.mem_singleton.mp hname')
      exact List.find?_eq_none.mp hfind b' hb' (beq_iff_eq.mpr hsame)

namespace PlacedOn

variable {layout : Layout} {l : Layer}

theorem matrix_nodup (h : l.PlacedOn layout) (hlayout : layout.WellFormed) :
    (l.keys.map (·.matrix)).Nodup := by
  refine List.pairwise_map.mpr ?_
  refine (List.pairwise_map.mp h.keys_nodup).imp_of_mem ?_
  -- Two keys on one switch would have one layout position.
  intro k k' hk hk' hne e
  have hat := h.key k hk
  have hat' := h.key k' hk'
  rw [← e] at hat'
  exact hne (hlayout.keyAt?_inj hat hat')

theorem pairs_nodup (h : l.PlacedOn layout) (hlayout : layout.WellFormed) :
    (l.chords.map fun c => (c.left, c.right)).Nodup := by
  refine List.pairwise_map.mpr ?_
  refine (List.pairwise_map.mp h.chords_nodup).imp_of_mem ?_
  intro c c' hc hc' hne e
  obtain ⟨p, hat⟩ := h.left c hc
  obtain ⟨p', hat'⟩ := h.left c' hc'
  rw [← (Prod.mk.inj e).1] at hat'
  exact hne (hlayout.keyAt?_inj hat hat')

end PlacedOn

end Keyplan.Layer
