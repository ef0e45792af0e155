import Keyplan.Layout
import Keyplan.Proofs.Outcome

/-!
# Layout resolution — what the views of a resolved layout promise

A resolved layout is well formed: its rows have one width, no two keys of a row are wired to the
same column, and every key is wired to a column of the matrix. Hence the key at a layout position
has a place inside the matrix, and different keys have different places.
-/

namespace Keyplan.Layout

open Outcome

/-! ## The keys of a row -/

def columns (row : List Slot) : List Nat :=
  row.filterMap Slot.column?

theorem mem_rowKeys {row : List Slot} {col column : Nat} :
    (col, column) ∈ rowKeys row ↔ row[col]? = some (.key column) := by
  unfold rowKeys
  simp only [List.mem_filterMap, Prod.exists, List.mem_zipIdx_iff_getElem?, Option.map_eq_some_iff]
  constructor
  · rintro ⟨slot, c, hslot, k, hk, hp⟩
    obtain ⟨rfl, rfl⟩ := Prod.mk.inj hp
    cases slot with
    | space => cases hk
    | key k' =>
      obtain rfl := Option.some.inj hk
      exact hslot
  · intro h
    exact ⟨.key column, col, h, column, rfl, rfl⟩

theorem map_snd_rowKeys (row : List Slot) : (rowKeys row).map (·.2) = columns row := by
  have hfrom : ∀ n, ((row.zipIdx n).filterMap fun x =>
      x.1.column?.map fun column => (x.2, column)).map (·.2) = columns row := by
    induction row with
    | nil => intro n; rfl
    | cons slot row ih =>
      intro n
      cases slot with
      | space => exact ih (n + 1)
      | key column => exact congrArg (column :: ·) (ih (n + 1))
  exact hfrom 0

theorem rowKeys_increasing (row : List Slot) : (rowKeys row).Pairwise (·.1 < ·.1) := by
  unfold rowKeys
  have hsorted : row.zipIdx.Pairwise (fun x y => x.2 < y.2) := by
    refine List.pairwise_map.mp (?_ : (row.zipIdx.map Prod.snd).Pairwise (· < ·))
    rw [List.zipIdx_map_snd]
    exact List.pairwise_lt_range'
  refine List.Pairwise.filterMap _ ?_ hsorted
  rintro ⟨slot, col⟩ ⟨slot', col'⟩ hlt b hb b' hb'
  obtain ⟨_, -, rfl⟩ := Option.map_eq_some_iff.mp hb
  obtain ⟨_, -, rfl⟩ := Option.map_eq_some_iff.mp hb'
  exact hlt

theorem fst_lt_of_mem_rowKeys {row : List Slot} {x : Nat × Nat} (h : x ∈ rowKeys row) :
    x.1 < row.length := by
  obtain ⟨hlt, -⟩ := List.getElem?_eq_some_iff.mp (mem_rowKeys.mp h)
  exact hlt

theorem snd_mem_columns {row : List Slot} {x : Nat × Nat} (h : x ∈ rowKeys row) :
    x.2 ∈ columns row := by
  rw [← map_snd_rowKeys]
  exact List.mem_map_of_mem h

theorem length_keyCounts (l : Layout) : l.keyCounts.length = l.height :=
  List.length_map _

/-! ## The key at a layout position -/

theorem keyAt?_eq_some_iff {l : Layout} {p : LayoutPos} {phys : PhysicalPos} {m : MatrixPos} :
    l.keyAt? p = some (phys, m) ↔
      (∃ row, l.rows[p.row]? = some row ∧ (rowKeys row)[p.col]? = some (phys.col, m.col)) ∧
        phys.row = p.row ∧ m.row = p.row := by
  unfold keyAt?
  obtain ⟨pc, pr⟩ := phys
  obtain ⟨mc, mr⟩ := m
  simp only [Option.bind_eq_bind, Option.bind_eq_some_iff, Option.pure_def, Option.some.injEq,
    Prod.mk.injEq, PhysicalPos.mk.injEq, MatrixPos.mk.injEq, Prod.exists]
  constructor
  · rintro ⟨row, hrow, col, column, hkey, ⟨rfl, rfl⟩, rfl, rfl⟩
    exact ⟨⟨row, hrow, hkey⟩, rfl, rfl⟩
  · rintro ⟨⟨row, hrow, hkey⟩, rfl, rfl⟩
    exact ⟨row, hrow, pc, mc, hkey, ⟨rfl, rfl⟩, rfl, rfl⟩

/-- What holds of every resolved layout. -/
structure WellFormed (l : Layout) : Prop where
  /-- All rows are as wide as the matrix. -/
  length_eq : ∀ row ∈ l.rows, row.length = l.width
  /-- No two keys of a row are wired to the same column. -/
  nodup : ∀ row ∈ l.rows, (columns row).Nodup
  /-- Every key is wired to a column of the matrix. -/
  lt_width : ∀ row ∈ l.rows, ∀ column ∈ columns row, column < l.width
  width_le : l.width ≤ maxCoordinate + 1
  height_le : l.height ≤ maxCoordinate + 1

namespace WellFormed

variable {l : Layout}

/-- The key at a layout position lies inside the layout and inside the matrix. -/
theorem bounds (hl : l.WellFormed) {p : LayoutPos} {phys : PhysicalPos} {m : MatrixPos}
    (h : l.keyAt? p = some (phys, m)) :
    p.row < l.height ∧ phys.col < l.width ∧ m.col < l.width ∧ phys.row = p.row ∧
      m.row = p.row := by
  obtain ⟨⟨row, hrow, hkey⟩, hpr, hmr⟩ := keyAt?_eq_some_iff.mp h
  obtain ⟨hlt, -⟩ := List.getElem?_eq_some_iff.mp hrow
  have hmem := List.mem_of_getElem? hrow
  have hkmem := List.mem_of_getElem? hkey
  have hcol := fst_lt_of_mem_rowKeys hkmem
  rw [hl.length_eq row hmem] at hcol
  exact ⟨hlt, hcol, hl.lt_width row hmem _ (snd_mem_columns hkmem), hpr, hmr⟩

theorem keyAt?_inj (hl : l.WellFormed) {p q : LayoutPos} {phys phys' : PhysicalPos}
    {m : MatrixPos} (hp : l.keyAt? p = some (phys, m)) (hq : l.keyAt? q = some (phys', m)) :
    p = q := by
  obtain ⟨⟨row, hrow, hkey⟩, -, hmr⟩ := keyAt?_eq_some_iff.mp hp
  obtain ⟨⟨row', hrow', hkey'⟩, -, hmr'⟩ := keyAt?_eq_some_iff.mp hq
  have hpq : p.row = q.row := hmr.symm.trans hmr'
  rw [← hpq, hrow] at hrow'
  obtain rfl := Option.some.inj hrow'
  have hnodup := hl.nodup row (List.mem_of_getElem? hrow)
  have hcol : (columns row)[p.col]? = some m.col := by
    rw [← map_snd_rowKeys, List.getElem?_map, hkey]
    rfl
  have hcol' : (columns row)[q.col]? = some m.col := by
    rw [← map_snd_rowKeys, List.getElem?_map, hkey']
    rfl
  have hlt := (List.getElem?_eq_some_iff.mp hcol).1
  have heq : p.col = q.col := (List.getElem?_inj hlt hnodup).mp (hcol.trans hcol'.symm)
  cases p
  cases q
  simp_all

end WellFormed

/-! ## Resolving a row -/

theorem checkCoordinate_eq_ok_iff {what : String} {n : Int} {span : Span} {c : Nat} :
    checkCoordinate what n span = .ok c ↔ n = c ∧ c ≤ maxCoordinate := by
  unfold checkCoordinate
  split
  · rename_i h
    simp only [Except.ok.injEq]
    omega
  · rename_i h
    simp only [reduceCtorEq, false_iff]
    omega

theorem locate_eq_ok_iff {col row : Int} {span : Span} {pos : MatrixPos} :
    MatrixPos.locate col row span = .ok pos ↔
      col = pos.col ∧ row = pos.row ∧ pos.col ≤ maxCoordinate ∧ pos.row ≤ maxCoordinate := by
  unfold MatrixPos.locate
  rw [bind_eq_ok_iff]
  constructor
  · rintro ⟨r, hr, h⟩
    obtain ⟨c, hc, h⟩ := bind_eq_ok_iff.mp h
    obtain rfl := pure_eq_ok_iff.mp h
    obtain ⟨hr, hr'⟩ := checkCoordinate_eq_ok_iff.mp hr
    obtain ⟨hc, hc'⟩ := checkCoordinate_eq_ok_iff.mp hc
    exact ⟨hc, hr, hc', hr'⟩
  · rintro ⟨hc, hr, hc', hr'⟩
    refine ⟨pos.row, checkCoordinate_eq_ok_iff.mpr ⟨hr, hr'⟩, ?_⟩
    rw [bind_eq_ok_iff]
    exact ⟨pos.col, checkCoordinate_eq_ok_iff.mpr ⟨hc, hc'⟩, rfl⟩

namespace RowClaims

/-- What holds of a row under construction from the items `items`. -/
structure Invariant (items : List LayoutItem) (r : RowClaims) : Prop where
  claims_eq : r.claims.map (·.1) = columns r.slots
  nodup : (columns r.slots).Nodup
  /-- A column is one that stands in the row already, or it was remapped. -/
  origin : ∀ column ∈ columns r.slots,
    column < r.slots.length ∨ ∃ item ∈ items, item.shape = .remap column
  length_le : r.slots.length ≤ maxCoordinate + 1

theorem columns_append (slots slots' : List Slot) :
    columns (slots ++ slots') = columns slots ++ columns slots' :=
  List.filterMap_append

/-- A key is added at the end of the row, on a column that was free. -/
theorem addKey_eq_ok {row : Nat} {column : Int} {span : Span} {r r' : RowClaims}
    (h : r.addKey row column span = .ok r') :
    ∃ c : Nat, column = c ∧ c ∉ r.claims.map (·.1) ∧ r.slots.length ≤ maxCoordinate ∧
      r'.slots = r.slots ++ [.key c] ∧ r'.claims = r.claims ++ [(c, span)] := by
  rw [addKey] at h
  obtain ⟨pos, hpos, h⟩ := bind_eq_ok_iff.mp h
  obtain ⟨next, hnext, h⟩ := bind_eq_ok_iff.mp h
  obtain ⟨hc, -, -, -⟩ := locate_eq_ok_iff.mp hpos
  obtain ⟨hn, hn'⟩ := checkCoordinate_eq_ok_iff.mp hnext
  split at h
  · cases h
  · rename_i hfind
    obtain rfl := pure_eq_ok_iff.mp h
    refine ⟨pos.col, hc, ?_, ?_, rfl, rfl⟩
    -- A claim on the same column would have been found.
    · intro hmem
      obtain ⟨claim, hclaim, hcol⟩ := List.mem_map.mp hmem
      have := List.find?_eq_none.mp hfind claim hclaim
      simp [hcol] at this
    -- The next cell has a coordinate.
    · have : r.slots.length = next := by exact_mod_cast hn
      omega

theorem addKey_invariant {items : List LayoutItem} {row : Nat} {column : Int} {span : Span}
    {r r' : RowClaims} (h : r.addKey row column span = .ok r') (hr : r.Invariant items)
    (hcolumn : column = r.next ∨ ∃ item ∈ items, item.shape = .remap column) :
    r'.Invariant items := by
  obtain ⟨c, rfl, hfresh, hlen, hslots, hclaims⟩ := addKey_eq_ok h
  have hcols : columns r'.slots = columns r.slots ++ [c] := by
    rw [hslots, columns_append]
    rfl
  refine ⟨?_, ?_, ?_, ?_⟩
  · rw [hclaims, List.map_append, hr.claims_eq, hcols]
    rfl
  -- The new column is not among the claims, which are the columns.
  · rw [hcols, List.nodup_append]
    refine ⟨hr.nodup, by simp, ?_⟩
    intro a ha b hb
    rw [hr.claims_eq] at hfresh
    obtain rfl := List.mem_singleton.mp hb
    exact fun e => hfresh (e ▸ ha)
  -- An old column keeps its origin, and a new one stands in the new cell or is remapped.
  · intro column hmem
    rw [hcols, List.mem_append, List.mem_singleton] at hmem
    rw [hslots, List.length_append, List.length_singleton]
    rcases hmem with hmem | rfl
    · rcases hr.origin column hmem with hlt | hremap
      · exact .inl (by omega)
      · exact .inr hremap
    · rcases hcolumn with hnext | hremap
      · have : column = r.slots.length := by exact_mod_cast hnext
        exact .inl (by omega)
      · exact .inr hremap
  · rw [hslots, List.length_append, List.length_singleton]
    omega

theorem addKeys_invariant {items : List LayoutItem} {row : Nat} {span : Span} (n : Nat)
    {r r' : RowClaims} (h : addKeys row span n r = .ok r') (hr : r.Invariant items) :
    r'.Invariant items ∧ r'.slots.length = r.slots.length + n := by
  induction n generalizing r with
  | zero =>
    obtain rfl := Except.ok.inj h
    exact ⟨hr, rfl⟩
  | succ n ih =>
    rw [addKeys] at h
    obtain ⟨r₁, h₁, h⟩ := bind_eq_ok_iff.mp h
    obtain ⟨hinv, hlen⟩ := ih h (addKey_invariant h₁ hr (.inl rfl))
    obtain ⟨c, -, -, -, hslots, -⟩ := addKey_eq_ok h₁
    rw [hslots, List.length_append, List.length_singleton] at hlen
    exact ⟨hinv, by omega⟩

theorem addSpaces_invariant {items : List LayoutItem} {span : Span} (n : Nat)
    {r r' : RowClaims} (h : addSpaces span n r = .ok r') (hr : r.Invariant items) :
    r'.Invariant items ∧ r'.slots.length = r.slots.length + n := by
  induction n generalizing r with
  | zero =>
    obtain rfl := Except.ok.inj h
    exact ⟨hr, rfl⟩
  | succ n ih =>
    rw [addSpaces] at h
    obtain ⟨next, hnext, h⟩ := bind_eq_ok_iff.mp h
    obtain ⟨hn, hn'⟩ := checkCoordinate_eq_ok_iff.mp hnext
    have hlen' : r.slots.length = next := by exact_mod_cast hn
    -- A spacer has no column.
    have hcols : columns (r.slots ++ [.space]) = columns r.slots := by
      rw [columns_append]
      exact List.append_nil _
    have hinv : Invariant items { r with slots := r.slots ++ [.space] } := by
      refine ⟨?_, ?_, ?_, ?_⟩
      · rw [hcols]
        exact hr.claims_eq
      · rw [hcols]
        exact hr.nodup
      · intro column hmem
        rw [hcols] at hmem
        rcases hr.origin column hmem with hlt | hremap
        · refine .inl ?_
          rw [List.length_append]
          omega
        · exact .inr hremap
      · rw [List.length_append, List.length_singleton]
        omega
    obtain ⟨hinv', hlen⟩ := ih h hinv
    rw [List.length_append, List.length_singleton] at hlen
    exact ⟨hinv', by omega⟩

/-- An item keeps the invariant and makes the row longer. -/
theorem addItem_invariant {items : List LayoutItem} {row : Nat} {item : LayoutItem}
    {r r' : RowClaims} (h : addItem row r item = .ok r') (hr : r.Invariant items)
    (hitem : item ∈ items) : r'.Invariant items ∧ r.slots.length < r'.slots.length := by
  unfold addItem at h
  split at h
  · rename_i count hshape
    split at h
    -- Counts below one are refused, so the row gets longer.
    · cases h
    · obtain ⟨hinv, hlen⟩ := addKeys_invariant _ h hr
      exact ⟨hinv, by omega⟩
  · rename_i count hshape
    split at h
    · cases h
    · obtain ⟨hinv, hlen⟩ := addSpaces_invariant _ h hr
      exact ⟨hinv, by omega⟩
  · rename_i column hshape
    refine ⟨addKey_invariant h hr (.inr ⟨item, hitem, hshape⟩), ?_⟩
    obtain ⟨c, -, -, -, hslots, -⟩ := addKey_eq_ok h
    rw [hslots, List.length_append, List.length_singleton]
    omega

theorem addItems_invariant {items : List LayoutItem} {row : Nat} (added : List LayoutItem)
    {r r' : RowClaims} (h : added.foldlM (addItem row) r = .ok r') (hr : r.Invariant items)
    (hadded : added ⊆ items) :
    r'.Invariant items ∧ r.slots.length + added.length ≤ r'.slots.length := by
  induction added generalizing r with
  | nil =>
    obtain rfl := Except.ok.inj h
    exact ⟨hr, Nat.le_refl _⟩
  | cons item added ih =>
    rw [List.foldlM_cons] at h
    obtain ⟨r₁, h₁, h⟩ := bind_eq_ok_iff.mp h
    obtain ⟨hitem, hrest⟩ := List.cons_subset.mp hadded
    obtain ⟨hinv, hlt⟩ := addItem_invariant h₁ hr hitem
    obtain ⟨hinv', hle⟩ := ih h hinv hrest
    exact ⟨hinv', by rw [List.length_cons]; omega⟩

end RowClaims

/-- A resolved row: each of its columns stands in the row or was remapped, no two are equal, and
every item adds to it. -/
theorem resolveRow_eq_ok {row : Nat} {node : LayoutRow} {slots : List Slot}
    (h : resolveRow row node = .ok slots) :
    row ≤ maxCoordinate ∧ node.items.length ≤ slots.length ∧
      ∃ r : RowClaims, r.Invariant node.items ∧ r.slots = slots := by
  unfold resolveRow at h
  obtain ⟨r, hrow, h⟩ := bind_eq_ok_iff.mp h
  obtain ⟨claims, hclaims, h⟩ := bind_eq_ok_iff.mp h
  obtain rfl := pure_eq_ok_iff.mp h
  obtain ⟨hr, hr'⟩ := checkCoordinate_eq_ok_iff.mp hrow
  -- The invariant holds of a row without cells, and every item keeps it.
  have hempty : RowClaims.Invariant node.items {} :=
    ⟨rfl, List.nodup_nil, fun _ hmem => absurd hmem List.not_mem_nil, Nat.zero_le _⟩
  obtain ⟨hinv, hlen⟩ := RowClaims.addItems_invariant _ hclaims hempty (List.Subset.refl _)
  have : row = r := by exact_mod_cast hr
  refine ⟨by omega, ?_, claims, hinv, rfl⟩
  simpa using hlen

/-! ## Resolving a layout -/

/-- Resolved rows have the width of the first one, and none lies below the last row a matrix can
have. -/
theorem resolveRows_eq_ok {row : Nat} {first : Option (Nat × Span)} (nodes : List LayoutRow)
    {rows : List (List Slot)} (h : resolveRows row first nodes = .ok rows) :
    (∀ slots ∈ rows, ∃ node ∈ nodes, ∃ row, resolveRow row node = .ok slots) ∧
      rows.length = nodes.length ∧
      (∀ slots ∈ rows,
        slots.length = (first.map (·.1)).getD ((rows.head?.map List.length).getD 0)) ∧
      (nodes ≠ [] → row + nodes.length ≤ maxCoordinate + 1) := by
  -- Behind the first row `first` is known, so the induction goes over both cases of it.
  induction nodes generalizing row first rows with
  | nil =>
    obtain rfl := Except.ok.inj h
    exact ⟨by simp, rfl, by simp, fun hne => absurd rfl hne⟩
  | cons node nodes ih =>
    rw [resolveRows] at h
    obtain ⟨slots, hslots, h⟩ := bind_eq_ok_iff.mp h
    simp only [] at h
    split at h
    · cases h
    rename_i hwidth
    obtain ⟨others, hothers, h⟩ := bind_eq_ok_iff.mp h
    obtain rfl := pure_eq_ok_iff.mp h
    obtain ⟨hrows, hlen, hwidths, hbound⟩ := ih hothers
    obtain ⟨hrow, -, -⟩ := resolveRow_eq_ok hslots
    have hfirst : slots.length = (first.getD (slots.length, node.span)).1 :=
      Decidable.not_not.mp hwidth
    refine ⟨?_, by rw [List.length_cons, hlen, List.length_cons], ?_, ?_⟩
    · intro s hs
      rcases List.mem_cons.mp hs with rfl | hs
      · exact ⟨node, List.mem_cons_self, row, hslots⟩
      · obtain ⟨node', hnode', hresolve⟩ := hrows s hs
        exact ⟨node', List.mem_cons_of_mem _ hnode', hresolve⟩
    · intro s hs
      have hs' : s.length = (first.getD (slots.length, node.span)).1 := by
        rcases List.mem_cons.mp hs with rfl | hs
        · exact hfirst
        · exact hwidths s hs
      rw [hs']
      cases first <;> rfl
    · intro _
      rw [List.length_cons]
      -- The last row has a coordinate, and the others lie above it.
      by_cases hne : nodes = []
      · subst hne
        simp only [List.length_nil]
        omega
      · have := hbound hne
        omega

theorem lt_width_of_remapFaults {width : Nat} {nodes : List LayoutRow}
    (h : remapFaults width nodes = none) {node : LayoutRow} (hnode : node ∈ nodes)
    {item : LayoutItem} (hitem : item ∈ node.items) {column : Int}
    (hshape : item.shape = .remap column) : column < width := by
  unfold remapFaults at h
  obtain ⟨row, hrow⟩ := List.getElem?_of_mem hnode
  have hnone := List.findSome?_eq_none_iff.mp h (node, row) (List.mem_zipIdx_iff_getElem?.mpr hrow)
  -- No item of no row has a fault.
  have hfault := List.findSome?_eq_none_iff.mp hnone item hitem
  unfold remapFault? at hfault
  simp only [hshape] at hfault
  split at hfault
  · assumption
  · cases hfault

/-- A resolved layout is well formed, and its rows are those of its block. -/
theorem resolve_eq_ok {block : LayoutBlock} {l : Layout} (h : resolve block = .ok l) :
    l.WellFormed ∧ l.rows ≠ [] ∧ l.height = block.rows.length ∧
      ∀ slots ∈ l.rows, ∃ node ∈ block.rows, ∃ row, resolveRow row node = .ok slots := by
  unfold resolve at h
  simp only [] at h
  split at h
  · cases h
  rename_i hne
  have hne' : block.rows ≠ [] := fun e => hne (by rw [e]; rfl)
  obtain ⟨rows, hrows, h⟩ := bind_eq_ok_iff.mp h
  split at h
  · cases h
  rename_i hfaults
  obtain rfl := pure_eq_ok_iff.mp h
  obtain ⟨hnodes, hlen, hwidths, hheight⟩ := resolveRows_eq_ok _ hrows
  have hinv : ∀ slots ∈ rows, ∃ node ∈ block.rows, ∃ r : RowClaims,
      r.Invariant node.items ∧ r.slots = slots := by
    intro slots hslots
    obtain ⟨node, hnode, row, hresolve⟩ := hnodes slots hslots
    obtain ⟨-, -, r, hr⟩ := resolveRow_eq_ok hresolve
    exact ⟨node, hnode, r, hr⟩
  have hempty : rows ≠ [] := by
    rintro rfl
    exact hne' (List.length_eq_zero_iff.mp hlen.symm)
  refine ⟨⟨hwidths, ?_, ?_, ?_, ?_⟩, hempty, hlen, hnodes⟩
  · intro slots hslots
    obtain ⟨node, -, r, hr, rfl⟩ := hinv slots hslots
    exact hr.nodup
  -- A column that stands in the row is below its length; a remapped one was checked.
  · intro slots hslots column hcolumn
    obtain ⟨node, hnode, r, hr, rfl⟩ := hinv slots hslots
    rcases hr.origin column hcolumn with hlt | ⟨item, hitem, hshape⟩
    · have hw := hwidths r.slots hslots
      exact lt_of_lt_of_eq hlt hw
    · have := lt_width_of_remapFaults hfaults hnode hitem hshape
      exact_mod_cast this
  -- The width is the length of the first row.
  · obtain ⟨slots, rest, rfl⟩ := List.exists_cons_of_ne_nil hempty
    obtain ⟨node, -, r, hr, rfl⟩ := hinv slots List.mem_cons_self
    exact hr.length_le
  · have := hheight hne'
    show rows.length ≤ _
    omega

theorem width_pos {block : LayoutBlock} {l : Layout} (h : resolve block = .ok l)
    (hitems : ∀ node ∈ block.rows, node.items ≠ []) : 0 < l.width := by
  obtain ⟨hl, hne, -, hnodes⟩ := resolve_eq_ok h
  obtain ⟨slots, rest, hrows⟩ := List.exists_cons_of_ne_nil hne
  have hslots : slots ∈ l.rows := hrows ▸ List.mem_cons_self
  obtain ⟨node, hnode, row, hresolve⟩ := hnodes slots hslots
  obtain ⟨-, hlen, -⟩ := resolveRow_eq_ok hresolve
  rw [← hl.length_eq slots hslots]
  exact Nat.lt_of_lt_of_le (List.length_pos_iff.mpr (hitems node hnode)) hlen

end Keyplan.Layout
