import Keyplan.Proofs.Keymap.Agreement
import Keyplan.Proofs.Layout.Coordinates
import Mathlib.Data.List.Forall2

/-!
# Acceptance — which layer blocks can be resolved, and to what

Keys of a layer row are numbered from the left, and chords are not counted. A layer block can be
resolved when there is a layout key under each of its keys and a key on both sides of each of its
chords. Then every key lies on the layout key with its number, and a chord lies between the last
key before it and the next one.
-/

namespace Keyplan

/-! ## 1. What a layer block asks for -/

namespace LayerRow

/-- The keys of a row from left to right. -/
def keys (r : LayerRow) : List Key :=
  r.items.filterMap RowItem.key?

def chordsFrom (n : Nat) : List RowItem → List (Chord × Nat)
  | [] => []
  | .key _ :: rest => chordsFrom (n + 1) rest
  | .chord c :: rest => (c, n) :: chordsFrom n rest

/-- The chords of a row from left to right, each with the number of keys before it. -/
def chords (r : LayerRow) : List (Chord × Nat) :=
  chordsFrom 0 r.items

end LayerRow

namespace LayerBlock

/-- The keys of a block row by row, each with its number in the row. -/
def keyPlaces (b : LayerBlock) : List (Key × LayoutPos) :=
  b.rows.zipIdx.flatMap fun (node, row) => node.keys.zipIdx.map fun (k, j) => (k, ⟨j, row⟩)

/-- The chords of a block row by row, each with the number of the key that comes next. -/
def chordPlaces (b : LayerBlock) : List (Chord × LayoutPos) :=
  b.rows.zipIdx.flatMap fun (node, row) => node.chords.map fun (c, j) => (c, ⟨j, row⟩)

/-- A block with a layout key for each of its keys, and with its chords between keys. -/
structure FitsLayout (b : LayerBlock) (layout : Layout) : Prop where
  rows_le : b.rows.length ≤ layout.height
  keys_le : ∀ row node, b.rows[row]? = some node → node.keys.length ≤ layout.keysInRow row
  /-- The items right before and right behind a chord are keys. -/
  flanked : ∀ node ∈ b.rows, ∀ before c after, node.items = before ++ .chord c :: after →
    Layer.isKey before.getLast? ∧ Layer.isKey after.head?

end LayerBlock

/-- The layout position of the key on the right of a chord. -/
def PlacedChord.rightLayout (c : PlacedChord) : LayoutPos :=
  ⟨c.leftLayout.col + 1, c.leftLayout.row⟩

namespace Layer

open Outcome

/-- A layer that is a block laid on a layout. -/
structure Lays (layout : Layout) (b : LayerBlock) (l : Layer) : Prop where
  name_eq : l.name = b.name
  rowCount_eq : l.rowCount = b.rows.length
  /-- The keys are those of the block, on the layout keys with their numbers. -/
  keys_eq : l.keys.map (fun k => (k.key, k.layout)) = b.keyPlaces
  physical : ∀ k ∈ l.keys, layout.physicalAt? k.layout = some k.physical
  matrix : ∀ k ∈ l.keys, layout.matrixAt? k.layout = some k.matrix
  /-- The chords are those of the block, left of the keys that come next. -/
  chords_eq : l.chords.map (fun c => (c.chord, c.rightLayout)) = b.chordPlaces
  left : ∀ c ∈ l.chords, layout.matrixAt? c.leftLayout = some c.left
  right : ∀ c ∈ l.chords, layout.matrixAt? c.rightLayout = some c.right
  switches_nodup : (l.keys.map (·.matrix)).Nodup
  pairs_nodup : (l.chords.map fun c => (c.left, c.right)).Nodup

variable {layout : Layout} {row : Nat} {afterKey : Bool} {col : Nat} {items : List RowItem}
  {nodes : List LayerRow} {keys : List PlacedKey} {chords : List PlacedChord}

/-! ## 2. Chords between keys -/

/-- Every chord stands between two keys. `afterKey` says whether the item right before the items is
a key. -/
def Flanked : Bool → List RowItem → Prop
  | _, [] => True
  | _, .key _ :: rest => Flanked true rest
  | afterKey, .chord _ :: rest => afterKey ∧ isKey rest.head? ∧ Flanked false rest

/-- Each chord has a key right before it, which may be the item before all of them, and a key right
behind it. -/
theorem flanked_iff (previous : Option RowItem) (items : List RowItem) :
    Flanked (isKey previous) items ↔ ∀ before c after, items = before ++ .chord c :: after →
      isKey (before.getLast?.or previous) ∧ isKey after.head? := by
  induction items generalizing previous with
  | nil => simp [Flanked]
  | cons item rest ih =>
    -- Behind the first item that item is the one before the others.
    have hbefore (before : List RowItem) :
        (item :: before).getLast?.or previous = before.getLast?.or (some item) := by
      rw [List.getLast?_cons]
      cases before.getLast? <;> rfl
    have hrest : Flanked (isKey (some item)) rest ↔ ∀ before c after,
        item :: rest = item :: before ++ .chord c :: after →
          isKey ((item :: before).getLast?.or previous) ∧ isKey after.head? := by
      rw [ih (some item)]
      simp only [List.cons_append, List.cons.injEq, true_and, hbefore]
    have hsplit : (∀ before c after, item :: rest = before ++ .chord c :: after →
        isKey (before.getLast?.or previous) ∧ isKey after.head?) ↔
          (∀ c, item = .chord c → isKey previous ∧ isKey rest.head?) ∧
            Flanked (isKey (some item)) rest := by
      rw [hrest]
      constructor
      · intro h
        exact ⟨fun c hc => h [] c rest (by rw [hc]; rfl), fun before => h (item :: before)⟩
      · rintro ⟨hhead, htail⟩ before c after heq
        cases before with
        | nil =>
          obtain ⟨hitem, rfl⟩ := List.cons.inj heq
          exact hhead c hitem
        | cons first before =>
          obtain ⟨rfl, -⟩ := List.cons.inj heq
          exact htail before c after heq
    rw [hsplit]
    cases item with
    | key k => simp [Flanked, isKey]
    | chord c => simp [Flanked, isKey, and_assoc]

/-! ## 3. Rows that can be placed -/

theorem exists_keyAt?_of_lt (hrow : row < layout.height) (hcol : col < layout.keysInRow row) :
    ∃ physical matrix, layout.keyAt? ⟨col, row⟩ = some (physical, matrix) := by
  have hkey : layout.HasKey ⟨col, row⟩ := ⟨hrow, hcol⟩
  obtain ⟨⟨physical, matrix⟩, hat⟩ :=
    Option.isSome_iff_exists.mp (Layout.isSome_keyAt?_iff.mpr hkey)
  exact ⟨physical, matrix, hat⟩

theorem lt_keysInRow_of_keyAt? {found : PhysicalPos × MatrixPos}
    (h : layout.keyAt? ⟨col, row⟩ = some found) : col < layout.keysInRow row :=
  (Layout.isSome_keyAt?_iff.mp (by rw [h]; rfl)).2

/-- Items that can be placed behind `col` keys are not too many, and have their chords between
keys. -/
theorem PlacedItems.fits (h : PlacedItems layout row afterKey col items keys chords)
    (hcol : col ≤ layout.keysInRow row) :
    Flanked afterKey items ∧
      col + (items.filterMap RowItem.key?).length ≤ layout.keysInRow row := by
  induction h with
  | nil => exact ⟨trivial, hcol⟩
  | @key afterKey col k items keys chords physical matrix under rest ih =>
    obtain ⟨hflanked, hle⟩ := ih (lt_keysInRow_of_keyAt? under)
    refine ⟨hflanked, ?_⟩
    show col + ((items.filterMap RowItem.key?).length + 1) ≤ _
    omega
  | chord underLeft underRight rest ih =>
    obtain ⟨hflanked, hle⟩ := ih hcol
    exact ⟨⟨rfl, rfl, hflanked⟩, hle⟩

theorem exists_placedItems (hrow : row < layout.height) (items : List RowItem)
    (hflanked : Flanked afterKey items) (hcol : afterKey → 0 < col)
    (hle : col + (items.filterMap RowItem.key?).length ≤ layout.keysInRow row) :
    ∃ keys chords, PlacedItems layout row afterKey col items keys chords := by
  induction items generalizing afterKey col with
  | nil => exact ⟨[], [], .nil⟩
  | cons item rest ih =>
    cases item with
    | key k =>
      have hle' : col + ((rest.filterMap RowItem.key?).length + 1) ≤ _ := hle
      have hlt : col < layout.keysInRow row := by omega
      obtain ⟨physical, matrix, hunder⟩ := exists_keyAt?_of_lt hrow hlt
      obtain ⟨keys, chords, hrest⟩ := ih hflanked (fun _ => Nat.succ_pos col) (by omega)
      exact ⟨_, _, .key hunder hrest⟩
    | chord c =>
      obtain ⟨rfl, hnext, hflanked⟩ := hflanked
      obtain ⟨n, rfl⟩ := Nat.exists_eq_succ_of_ne_zero (Nat.pos_iff_ne_zero.mp (hcol rfl))
      obtain ⟨keys, chords, hrest⟩ := ih hflanked nofun hle
      cases rest with
      | nil => cases hnext
      | cons next rest =>
        cases next with
        | chord => cases hnext
        -- The key behind the chord is counted, so both neighbours have a layout key under them.
        | key k =>
          have hle' : n + 1 + ((rest.filterMap RowItem.key?).length + 1) ≤ _ := hle
          have hlt : n + 1 < layout.keysInRow row := by omega
          obtain ⟨physical, left, hleft⟩ := exists_keyAt?_of_lt hrow (Nat.lt_of_succ_lt hlt)
          obtain ⟨physical', right, hright⟩ := exists_keyAt?_of_lt hrow hlt
          exact ⟨_, _, .chord hleft hright hrest⟩

theorem exists_placedRows_iff (nodes : List LayerRow) (hrow : row ≤ layout.height) :
    (∃ keys chords, PlacedRows layout row nodes keys chords) ↔
      row + nodes.length ≤ layout.height ∧ ∀ i node, nodes[i]? = some node →
        Flanked false node.items ∧ node.keys.length ≤ layout.keysInRow (row + i) := by
  constructor
  · rintro ⟨keys, chords, h⟩
    refine ⟨?_, fun i node hi => ?_⟩
    · -- The last row lies on the layout.
      cases hlast : nodes[nodes.length - 1]? with
      | none =>
        have hnil := List.getElem?_eq_none_iff.mp hlast
        omega
      | some node =>
        have hlt := h.lt_height hlast
        omega
    · have hfits := (h.items hi).fits (Nat.zero_le _)
      rw [Nat.zero_add] at hfits
      exact hfits
  · rintro ⟨hheight, hfits⟩
    induction nodes generalizing row with
    | nil => exact ⟨[], [], .nil⟩
    | cons node nodes ih =>
      rw [List.length_cons] at hheight
      obtain ⟨hflanked, hkeys⟩ := hfits 0 node rfl
      have hle : 0 + (node.items.filterMap RowItem.key?).length ≤ layout.keysInRow row := by
        rw [Nat.zero_add]
        exact hkeys
      obtain ⟨keys, chords, hhere⟩ :=
        exists_placedItems (by omega) node.items hflanked nofun hle
      have hfits' : ∀ i node', nodes[i]? = some node' → Flanked false node'.items ∧
          node'.keys.length ≤ layout.keysInRow (row + 1 + i) := by
        intro i node' hi
        rw [show row + 1 + i = row + (i + 1) by omega]
        exact hfits (i + 1) node' hi
      have hheight' : row + 1 + nodes.length ≤ layout.height := by omega
      obtain ⟨keys', chords', hbelow⟩ := ih (by omega) hheight' hfits'
      exact ⟨_, _, .cons (by omega) hhere hbelow⟩

theorem resolve_succeeds_iff {b : LayerBlock} :
    (∃ l, resolve layout b = .ok l) ↔ b.FitsLayout layout := by
  have hplaced : (∃ l, resolve layout b = .ok l) ↔
      ∃ keys chords, PlacedRows layout 0 b.rows keys chords := by
    constructor
    · rintro ⟨l, hl⟩
      exact ⟨l.keys, l.chords, (resolve_eq_ok_iff.mp hl).2.2⟩
    · rintro ⟨keys, chords, hrows⟩
      exact ⟨⟨b.name, b.rows.length, keys, chords⟩, resolve_eq_ok_iff.mpr ⟨rfl, rfl, hrows⟩⟩
  rw [hplaced, exists_placedRows_iff _ (Nat.zero_le _)]
  simp only [Nat.zero_add]
  have hflanked (node : LayerRow) := flanked_iff none node.items
  simp only [Option.or_none] at hflanked
  constructor
  · rintro ⟨hheight, hfits⟩
    refine ⟨hheight, fun row node hnode => (hfits row node hnode).2, fun node hnode => ?_⟩
    obtain ⟨i, hi⟩ := List.getElem?_of_mem hnode
    exact (hflanked node).mp (hfits i node hi).1
  · intro h
    refine ⟨h.rows_le, fun i node hi => ⟨?_, h.keys_le i node hi⟩⟩
    exact (hflanked node).mpr (h.flanked node (List.mem_of_getElem? hi))

/-! ## 4. Where keys and chords are placed -/

theorem PlacedItems.keys_eq (h : PlacedItems layout row afterKey col items keys chords) :
    keys.map (fun k => (k.key, k.layout)) =
      ((items.filterMap RowItem.key?).zipIdx col).map fun (k, j) => (k, ⟨j, row⟩) := by
  induction h with
  | nil => rfl
  | key under rest ih => exact congrArg (_ :: ·) ih
  | chord underLeft underRight rest ih => exact ih

theorem PlacedItems.chords_eq (h : PlacedItems layout row afterKey col items keys chords) :
    chords.map (fun c => (c.chord, c.rightLayout)) =
      (LayerRow.chordsFrom col items).map fun (c, j) => (c, ⟨j, row⟩) := by
  induction h with
  | nil => rfl
  | key under rest ih => exact ih
  | chord underLeft underRight rest ih => exact congrArg (_ :: ·) ih

theorem PlacedRows.places_eq (h : PlacedRows layout row nodes keys chords) :
    keys.map (fun k => (k.key, k.layout)) = ((nodes.zipIdx row).flatMap fun (node, row) =>
        node.keys.zipIdx.map fun (k, j) => (k, ⟨j, row⟩)) ∧
      chords.map (fun c => (c.chord, c.rightLayout)) = (nodes.zipIdx row).flatMap fun (node, row) =>
        node.chords.map fun (c, j) => (c, ⟨j, row⟩) := by
  induction h with
  | nil => exact ⟨rfl, rfl⟩
  | cons inside here below ih =>
    rw [List.map_append, List.map_append, here.keys_eq, here.chords_eq, ih.1, ih.2]
    exact ⟨rfl, rfl⟩

theorem lays_of_resolve (hlayout : layout.WellFormed) {b : LayerBlock} {l : Layer}
    (h : resolve layout b = .ok l) : Lays layout b l := by
  obtain ⟨hname, hcount, hrows⟩ := resolve_eq_ok_iff.mp h
  have hplaced := placedOn_of_resolve h
  obtain ⟨hkeys, hchords⟩ := hrows.places_eq
  exact {
    name_eq := hname
    rowCount_eq := hcount
    keys_eq := hkeys
    physical := fun k hk => Layout.physicalAt?_eq_some_iff.mpr ⟨_, hplaced.key k hk⟩
    matrix := fun k hk => Layout.matrixAt?_eq_some_iff.mpr ⟨_, hplaced.key k hk⟩
    chords_eq := hchords
    left := fun c hc => Layout.matrixAt?_eq_some_iff.mpr (hplaced.left c hc)
    right := fun c hc => Layout.matrixAt?_eq_some_iff.mpr (hplaced.right c hc)
    switches_nodup := hplaced.matrix_nodup hlayout
    pairs_nodup := hplaced.pairs_nodup hlayout }

/-! ## 5. Lists of layers -/

theorem checkNames_of_nodup (seen : List LayerBlock) {blocks : List LayerBlock}
    (h : ((seen ++ blocks).map (·.name)).Nodup) : checkNames seen blocks = .ok () := by
  induction blocks generalizing seen with
  | nil => rfl
  | cons b rest ih =>
    have hnew : seen.find? (·.name == b.name) = none := by
      apply List.find?_eq_none.mpr
      intro b' hb' hsame
      rw [List.map_append, List.nodup_append] at h
      exact h.2.2 b'.name (List.mem_map_of_mem hb') b.name List.mem_cons_self
        (beq_iff_eq.mp hsame)
    rw [checkNames, hnew]
    apply ih
    rwa [List.append_assoc]

theorem checkNames_eq_ok_iff {blocks : List LayerBlock} :
    checkNames [] blocks = .ok () ↔ (blocks.map (·.name)).Nodup :=
  ⟨fun h => nodup_of_checkNames [] h List.nodup_nil, checkNames_of_nodup []⟩

theorem resolveAll_succeeds_iff {blocks : List LayerBlock} :
    (∃ layers, resolveAll layout blocks = .ok layers) ↔
      (blocks.map (·.name)).Nodup ∧ ∀ b ∈ blocks, b.FitsLayout layout := by
  simp only [resolveAll_eq_ok_iff, checkNames_eq_ok_iff, exists_and_left, mapM_succeeds_iff,
    resolve_succeeds_iff]

end Layer

namespace Keymap

/-- A layer is found under its place among names that differ. -/
theorem layerIndex?_eq_some_iff {m : Keymap} (hnodup : m.layerNames.Nodup) {name : String}
    {i : Nat} : m.layerIndex? name = some i ↔ m.layerNames[i]? = some name := by
  rw [← List.map_id m.layerNames] at hnodup
  have hfind := Layout.findIdx?_eq_some_iff_of_nodup hnodup (a := name) (i := i)
  simp only [id_eq, exists_eq_right] at hfind
  exact hfind

end Keymap

namespace Layer

open Outcome

variable {layout : Layout}

/-- Layer blocks can be resolved on a layout exactly when no two have one name and all of them fit
it. The layers are then the blocks laid on the layout, and a name leads to its place. -/
theorem resolveAll_accepts {block : LayoutBlock} (h : Layout.resolve block = .ok layout)
    (blocks : List LayerBlock) :
    ((∃ layers, resolveAll layout blocks = .ok layers) ↔
        (blocks.map (·.name)).Nodup ∧ ∀ b ∈ blocks, b.FitsLayout layout) ∧
      ∀ layers, resolveAll layout blocks = .ok layers →
        List.Forall₂ (Lays layout) blocks layers ∧
          ∀ m : Keymap, m.layers = layers → m.layerNames = blocks.map (·.name) ∧
            ∀ name i, m.layerIndex? name = some i ↔ (blocks.map (·.name))[i]? = some name := by
  refine ⟨resolveAll_succeeds_iff, fun layers hlayers => ?_⟩
  obtain ⟨hnames, hresolve⟩ := resolveAll_eq_ok_iff.mp hlayers
  have hwf := (Layout.resolve_eq_ok h).1
  refine ⟨?_, ?_⟩
  · have hforall : List.Forall₂ (· = ·) (blocks.map (resolve layout)) (layers.map .ok) := by
      rw [List.forall₂_eq_eq_eq]
      exact mapM_eq_ok_iff.mp hresolve
    have hpairs := List.forall₂_map_right_iff.mp (List.forall₂_map_left_iff.mp hforall)
    exact hpairs.imp fun b l => lays_of_resolve hwf
  · rintro m rfl
    have heq : m.layerNames = blocks.map (·.name) :=
      (map_of_mapM hresolve fun _ _ hb => (resolve_eq_ok_iff.mp hb).1.symm).symm
    refine ⟨heq, fun name i => ?_⟩
    rw [← heq]
    apply Keymap.layerIndex?_eq_some_iff
    rw [heq]
    exact checkNames_eq_ok_iff.mp hnames

/-- A layer with a short row above a chord, and a layer without rows. -/
def shortRowAndChord : List LayerBlock :=
  let k : Key := { tap := { meaning := .named "x" } }
  [{ name := "a", rows := [{ items := [.key k] },
      { items := [.key k, .key k, .chord { key := k }, .key k] }] },
    { name := "b", rows := [] }]

/-- The lower row of the layout is wired from right to left, and so is the chord. -/
theorem resolveAll_accepts_shortRowAndChord : ∃ layout layers,
    Layout.resolve { rows := [{ items := [⟨.keys 2, {}⟩, ⟨.spaces 1, {}⟩] },
      { items := [⟨.remap 2, {}⟩, ⟨.keys 1, {}⟩, ⟨.remap 0, {}⟩] }] } = .ok layout ∧
      resolveAll layout shortRowAndChord = .ok layers ∧
      (∀ b ∈ shortRowAndChord, b.FitsLayout layout) ∧
      List.Forall₂ (Lays layout) shortRowAndChord layers ∧
      layers.map (fun l => l.keys.map (·.matrix)) =
        [[⟨0, 0⟩, ⟨2, 1⟩, ⟨1, 1⟩, ⟨0, 1⟩], []] ∧
      layers.map (fun l => l.chords.map fun c => (c.left, c.right)) = [[(⟨1, 1⟩, ⟨0, 1⟩)], []] := by
  have hlayout : Layout.resolve { rows := [{ items := [⟨.keys 2, {}⟩, ⟨.spaces 1, {}⟩] },
      { items := [⟨.remap 2, {}⟩, ⟨.keys 1, {}⟩, ⟨.remap 0, {}⟩] }] } =
        .ok ⟨[[.key 0, .key 1, .space], [.key 2, .key 1, .key 0]]⟩ := by rfl
  obtain ⟨hiff, hlays⟩ := resolveAll_accepts hlayout shortRowAndChord
  have hsome : (resolveAll ⟨[[.key 0, .key 1, .space], [.key 2, .key 1, .key 0]]⟩
      shortRowAndChord).toOption.map (fun layers => (layers.map (fun l => l.keys.map (·.matrix)),
        layers.map fun l => l.chords.map fun c => (c.left, c.right))) =
          some ([[⟨0, 0⟩, ⟨2, 1⟩, ⟨1, 1⟩, ⟨0, 1⟩], []], [[(⟨1, 1⟩, ⟨0, 1⟩)], []]) := by
    decide
  obtain ⟨layers, hlayers, hplaces⟩ := Option.map_eq_some_iff.mp hsome
  obtain ⟨hswitches, hpairs⟩ := Prod.mk.inj hplaces
  have hok := toOption_eq_some_iff.mp hlayers
  exact ⟨_, layers, hlayout, hok, (hiff.mp ⟨layers, hok⟩).2, (hlays layers hok).1, hswitches,
    hpairs⟩

end Layer

end Keyplan
