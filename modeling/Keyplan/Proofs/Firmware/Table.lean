import Keyplan.Firmware.Table
import Keyplan.Proofs.Firmware.Allocator
import Keyplan.Proofs.Keymap

/-!
# Firmware tables — the actions of a table are those of the layers

A layer is bound through a map from positions to keys that chords and keys are written into. No
write ever replaces another one: chords have slots of their own below the matrix, and keys have
switches of their own inside it. So each cell of a grid is what the layer says it is.
-/

namespace Keyplan.Firmware

open Outcome

variable {w h : Nat}

/-! ## Chords -/

def slotOf (slots : OrderedMap ChordPair MatrixPos) (c : PlacedChord) : Option MatrixPos :=
  slots.get? ⟨c.left, c.right⟩

namespace Allocator.Counted

variable {a a' : Allocator ChordPair}

theorem pair_unique (ha : a.Counted w h) {k k' : ChordPair} {pos : MatrixPos}
    (hk : a.slots.get? k = some pos) (hk' : a.slots.get? k' = some pos) : k = k' := by
  obtain ⟨i, hi⟩ := List.getElem?_of_mem (OrderedMap.mem_of_get? hk)
  obtain ⟨j, hj⟩ := List.getElem?_of_mem (OrderedMap.mem_of_get? hk')
  have hpos : (a.slots.map (·.2))[i]? = some pos := by rw [List.getElem?_map, hi]; rfl
  have hpos' : (a.slots.map (·.2))[j]? = some pos := by rw [List.getElem?_map, hj]; rfl
  have hlt := (List.getElem?_eq_some_iff.mp hpos).1
  obtain rfl := (List.getElem?_inj hlt ha.slots_nodup).mp (hpos.trans hpos'.symm)
  exact (Prod.mk.inj (Option.some.inj (hi.symm.trans hj))).1

end Allocator.Counted

namespace Table

/-- The keys of chords at the slots of the chords. -/
def AtSlots (slots : OrderedMap ChordPair MatrixPos) (chords : List PlacedChord)
    (placed : OrderedMap MatrixPos Key) : Prop :=
  chords.map (fun c => (slotOf slots c, c.chord.key)) = placed.map fun e => (some e.1, e.2)

namespace AtSlots

variable {slots slots' : OrderedMap ChordPair MatrixPos} {chords : List PlacedChord}
  {placed : OrderedMap MatrixPos Key}

theorem slotOf_mem (hat : AtSlots slots chords placed) {c : PlacedChord} (hc : c ∈ chords) :
    ∃ pos, slotOf slots c = some pos ∧ (pos, c.chord.key) ∈ placed := by
  have hmem : (slotOf slots c, c.chord.key) ∈ placed.map fun e => (some e.1, e.2) := by
    rw [← hat]
    exact List.mem_map.mpr ⟨c, hc, rfl⟩
  obtain ⟨⟨pos, key⟩, he, heq⟩ := List.mem_map.mp hmem
  obtain ⟨hpos, rfl⟩ := Prod.mk.inj heq
  exact ⟨pos, hpos.symm, he⟩

theorem chord_of_mem (hat : AtSlots slots chords placed) {pos : MatrixPos} {key : Key}
    (he : (pos, key) ∈ placed) : ∃ c ∈ chords, slotOf slots c = some pos ∧ c.chord.key = key := by
  have hmem : (some pos, key) ∈ chords.map fun c => (slotOf slots c, c.chord.key) := by
    rw [hat]
    exact List.mem_map.mpr ⟨(pos, key), he, rfl⟩
  obtain ⟨c, hc, heq⟩ := List.mem_map.mp hmem
  obtain ⟨hpos, hkey⟩ := Prod.mk.inj heq
  exact ⟨c, hc, hpos, hkey⟩

theorem mono (hat : AtSlots slots chords placed) (hslots : slots <+: slots') :
    AtSlots slots' chords placed := by
  unfold AtSlots
  rw [← hat]
  refine List.map_congr_left fun c hc => ?_
  obtain ⟨pos, hpos, -⟩ := hat.slotOf_mem hc
  obtain ⟨more, rfl⟩ := hslots
  have hpos' : slotOf (slots ++ more) c = some pos := OrderedMap.get?_append_of_some hpos
  rw [hpos, hpos']

theorem keys_nodup {a : Allocator ChordPair} (hat : AtSlots a.slots chords placed)
    (ha : a.Counted w h) (hpairs : (chords.map fun c => (c.left, c.right)).Nodup) :
    (OrderedMap.keys placed).Nodup := by
  -- A slot belongs to one pair, and the pairs differ.
  have hslots : (chords.map (slotOf a.slots)).Nodup := by
    refine List.pairwise_map.mpr ?_
    refine (List.pairwise_map.mp hpairs).imp_of_mem ?_
    intro c c' hc _ hne heq
    obtain ⟨pos, hpos, -⟩ := hat.slotOf_mem hc
    have hpair := ha.pair_unique hpos (heq.symm.trans hpos)
    exact hne (by rw [(ChordPair.mk.inj hpair).1, (ChordPair.mk.inj hpair).2])
  have hsome : chords.map (slotOf a.slots) = (OrderedMap.keys placed).map some := by
    have heq := congrArg (List.map Prod.fst) hat
    rw [List.map_map, List.map_map] at heq
    rw [OrderedMap.keys, List.map_map]
    exact heq
  rw [hsome] at hslots
  exact (List.pairwise_map.mp hslots).imp fun hne e => hne (congrArg some e)

end AtSlots

variable {a a' : Allocator ChordPair}

/-- Chords with different pairs are put on different slots, so each is put behind the others. -/
theorem placeChords_from (hw : 0 < w) (chords done : List PlacedChord)
    {placed placed' : OrderedMap MatrixPos Key}
    (hplace : chords.foldlM (fun (placed, a) c => do
      let (pos, a') ← a.allocate ⟨c.left, c.right⟩ c.chord.span
      return (placed.insert pos c.chord.key, a')) (placed, a) =
        (.ok (placed', a') : Except Diagnostic _))
    (ha : a.Counted w h) (hat : AtSlots a.slots done placed)
    (hpairs : ((done ++ chords).map fun c => (c.left, c.right)).Nodup) :
    a'.Counted w h ∧ a.slots <+: a'.slots ∧ AtSlots a'.slots (done ++ chords) placed' := by
  -- What is done already is part of the invariant: a new slot has to differ from all of it.
  induction chords generalizing done placed a with
  | nil =>
    obtain ⟨rfl, rfl⟩ := Prod.mk.inj (Except.ok.inj hplace)
    exact ⟨ha, List.prefix_refl _, by rwa [List.append_nil]⟩
  | cons c chords ih =>
    rw [List.foldlM_cons] at hplace
    obtain ⟨⟨placed₁, a₁⟩, hstep, hplace⟩ := bind_eq_ok_iff.mp hplace
    obtain ⟨⟨pos, a₂⟩, halloc, hstep⟩ := bind_eq_ok_iff.mp hstep
    obtain ⟨rfl, rfl⟩ := Prod.mk.inj (pure_eq_ok_iff.mp hstep)
    obtain ⟨ha₁, hpos, hgrow⟩ := Allocator.allocate_eq_ok hw ha halloc
    have hat₁ := hat.mono hgrow
    -- A chord that is done and had this slot would have the same pair.
    have hfresh : pos ∉ OrderedMap.keys placed := by
      intro hmem
      obtain ⟨⟨_, key⟩, he, rfl⟩ := List.mem_map.mp hmem
      obtain ⟨d, hd, hslot, -⟩ := hat₁.chord_of_mem he
      have hpair := ha₁.pair_unique hslot hpos
      rw [List.map_append, List.nodup_append] at hpairs
      refine hpairs.2.2 (d.left, d.right) (List.mem_map.mpr ⟨d, hd, rfl⟩) (c.left, c.right)
        (List.mem_map.mpr ⟨c, List.mem_cons_self, rfl⟩) ?_
      rw [(ChordPair.mk.inj hpair).1, (ChordPair.mk.inj hpair).2]
    have hat₂ : AtSlots a₂.slots (done ++ [c]) (placed.insert pos c.chord.key) := by
      unfold AtSlots
      rw [OrderedMap.insert_of_not_mem _ hfresh, List.map_append, List.map_append, hat₁]
      exact congrArg _ (congrArg (fun s => [(s, c.chord.key)]) hpos)
    obtain ⟨ha', hgrow', hat'⟩ := ih (done ++ [c]) hplace ha₁ hat₂ (by simpa using hpairs)
    exact ⟨ha', hgrow.trans hgrow', by simpa using hat'⟩

theorem placeChords_eq_ok (hw : 0 < w) {chords : List PlacedChord}
    {placed : OrderedMap MatrixPos Key} (hplace : placeChords a chords = .ok (placed, a'))
    (ha : a.Counted w h) (hpairs : (chords.map fun c => (c.left, c.right)).Nodup) :
    a'.Counted w h ∧ a.slots <+: a'.slots ∧ AtSlots a'.slots chords placed :=
  placeChords_from hw chords [] hplace ha rfl hpairs

/-! ## Keys -/

theorem placeKeys_eq (keys : List PlacedKey) {placed : OrderedMap MatrixPos Key}
    (hnodup : (keys.map (·.matrix)).Nodup)
    (hapart : ∀ k ∈ keys, k.matrix ∉ OrderedMap.keys placed) :
    placeKeys placed keys = placed ++ keys.map fun k => (k.matrix, k.key) := by
  induction keys generalizing placed with
  | nil => exact (List.append_nil placed).symm
  | cons k keys ih =>
    obtain ⟨hk, hnodup⟩ := List.nodup_cons.mp hnodup
    have hfresh := hapart k List.mem_cons_self
    show placeKeys (placed.insert k.matrix k.key) keys = _
    rw [OrderedMap.insert_of_not_mem _ hfresh, ih hnodup, List.append_assoc]
    · rfl
    -- The keys that follow are apart from those before and from this one.
    · intro k' hk' hmem
      unfold OrderedMap.keys at hmem
      rw [List.map_append, List.mem_append] at hmem
      rcases hmem with hmem | hmem
      · exact hapart k' (List.mem_cons_of_mem _ hk') hmem
      · have hk'' : k'.matrix = k.matrix := List.mem_singleton.mp hmem
        exact hk (List.mem_map.mpr ⟨k', hk', hk''⟩)

/-! ## Layers -/

theorem bindAt_eq_ok_iff {b : Binder} {entry : MatrixPos × Key} {bound : MatrixPos × Action} :
    bindAt b entry = .ok bound ↔ bound.1 = entry.1 ∧ b.bind entry.2 = .ok bound.2 := by
  unfold bindAt
  simp only [bind_eq_ok_iff, pure_eq_ok_iff]
  constructor
  · rintro ⟨action, haction, rfl⟩
    exact ⟨rfl, haction⟩
  · rintro ⟨hpos, haction⟩
    exact ⟨bound.2, haction, by rw [← hpos]⟩

theorem keys_of_bindAt {b : Binder} {entries : OrderedMap MatrixPos Key}
    {bound : OrderedMap MatrixPos Action} (hbind : entries.mapM (bindAt b) = .ok bound) :
    OrderedMap.keys bound = OrderedMap.keys entries := by
  have hlen := length_of_mapM hbind
  refine List.ext_getElem? fun i => ?_
  unfold OrderedMap.keys
  rw [List.getElem?_map, List.getElem?_map]
  cases hentry : entries[i]? with
  | none =>
    have hle := List.getElem?_eq_none_iff.mp hentry
    rw [List.getElem?_eq_none_iff.mpr (by omega)]
    rfl
  | some entry =>
    obtain ⟨e, he, hbound⟩ := mapM_getElem? hbind hentry
    rw [he]
    exact congrArg some (bindAt_eq_ok_iff.mp hbound).1

theorem mem_of_bindAt {b : Binder} {entries : OrderedMap MatrixPos Key}
    {bound : OrderedMap MatrixPos Action} (hbind : entries.mapM (bindAt b) = .ok bound)
    {pos : MatrixPos} {key : Key} (hmem : (pos, key) ∈ entries) :
    ∃ action, b.bind key = .ok action ∧ (pos, action) ∈ bound := by
  obtain ⟨i, hi⟩ := List.getElem?_of_mem hmem
  obtain ⟨⟨pos', action⟩, he, hbound⟩ := mapM_getElem? hbind hi
  obtain ⟨rfl, haction⟩ := bindAt_eq_ok_iff.mp hbound
  exact ⟨action, haction, List.mem_of_getElem? he⟩

/-- The actions of a layer by position: the ones of its keys on their switches, the ones of its
chords on their slots, and no others. -/
structure Binds (b : Binder) (slots : OrderedMap ChordPair MatrixPos) (l : Layer)
    (bound : OrderedMap MatrixPos Action) : Prop where
  nodup : (OrderedMap.keys bound).Nodup
  key : ∀ k ∈ l.keys, ∃ action, b.bind k.key = .ok action ∧ bound.get? k.matrix = some action
  chord : ∀ c ∈ l.chords, ∃ pos action, slotOf slots c = some pos ∧
    b.bind c.chord.key = .ok action ∧ bound.get? pos = some action
  only : ∀ pos ∈ OrderedMap.keys bound,
    (∃ k ∈ l.keys, k.matrix = pos) ∨ ∃ c ∈ l.chords, slotOf slots c = some pos

theorem Binds.mono {b : Binder} {slots slots' : OrderedMap ChordPair MatrixPos} {l : Layer}
    {bound : OrderedMap MatrixPos Action} (hb : Binds b slots l bound) (hslots : slots <+: slots') :
    Binds b slots' l bound := by
  have hkeep : ∀ {c pos}, slotOf slots c = some pos → slotOf slots' c = some pos := by
    intro c pos hpos
    obtain ⟨more, rfl⟩ := hslots
    exact OrderedMap.get?_append_of_some hpos
  refine ⟨hb.nodup, hb.key, ?_, ?_⟩
  · intro c hc
    obtain ⟨pos, action, hpos, haction⟩ := hb.chord c hc
    exact ⟨pos, action, hkeep hpos, haction⟩
  · intro pos hpos
    rcases hb.only pos hpos with hkey | ⟨c, hc, hslot⟩
    · exact .inl hkey
    · exact .inr ⟨c, hc, hkeep hslot⟩

variable {layout : Layout} {b : Binder}

/-- What is bound for a layer lies in the grid, which has the rows that the allocator added. -/
theorem Binds.bounds (hw : 0 < layout.width) (hlayout : layout.WellFormed) {l : Layer}
    (hl : l.PlacedOn layout) (ha : a.Counted layout.width layout.height)
    {bound : OrderedMap MatrixPos Action} (hb : Binds b a.slots l bound) :
    ∀ pos ∈ OrderedMap.keys bound,
      pos.row < layout.height + a.extraRows ∧ pos.col < layout.width := by
  intro pos hpos
  rcases hb.only pos hpos with ⟨k, hk, rfl⟩ | ⟨c, -, hslot⟩
  · obtain ⟨hrow, -, hcol, -, heq⟩ := hlayout.bounds (hl.key k hk)
    exact ⟨by omega, hcol⟩
  · obtain ⟨-, hrow, hcol⟩ := ha.bounds hw (OrderedMap.mem_of_get? hslot)
    exact ⟨hrow, hcol⟩

/-- What is written for a layer before it is bound: chords first, then keys, with no position
written twice. Keys are the entries inside the matrix, chords those below it. -/
theorem placed_eq (hw : 0 < layout.width) (hlayout : layout.WellFormed) {l : Layer}
    (hl : l.PlacedOn layout) {chordKeys : OrderedMap MatrixPos Key}
    (ha : a.Counted layout.width layout.height) (hat : AtSlots a.slots l.chords chordKeys) :
    (placeKeys chordKeys l.keys).filter (fun e => !a.isExtra e.1.row) =
        l.keys.map (fun k => (k.matrix, k.key)) ∧
      (placeKeys chordKeys l.keys).filter (fun e => a.isExtra e.1.row) = chordKeys := by
  have hchord : ∀ e ∈ chordKeys, a.isExtra e.1.row = true := by
    rintro ⟨pos, key⟩ he
    obtain ⟨c, -, hslot, -⟩ := hat.chord_of_mem he
    have hrow := (ha.bounds hw (OrderedMap.mem_of_get? hslot)).1
    simp only [Allocator.isExtra, ha.height_eq, decide_eq_true_eq]
    omega
  have hkey : ∀ e ∈ l.keys.map (fun k => (k.matrix, k.key)), a.isExtra e.1.row = false := by
    intro e he
    obtain ⟨k, hk, rfl⟩ := List.mem_map.mp he
    obtain ⟨hlt, -, -, -, hrow⟩ := hlayout.bounds (hl.key k hk)
    simp only [Allocator.isExtra, ha.height_eq, decide_eq_false_iff_not]
    omega
  -- Rows of the matrix and rows below it do not meet.
  have hapart : ∀ k ∈ l.keys, k.matrix ∉ OrderedMap.keys chordKeys := by
    intro k hk hmem
    obtain ⟨e, he, heq⟩ := List.mem_map.mp hmem
    have hextra := hchord e he
    rw [heq, hkey _ (List.mem_map.mpr ⟨k, hk, rfl⟩)] at hextra
    cases hextra
  rw [placeKeys_eq l.keys (hl.matrix_nodup hlayout) hapart, List.filter_append, List.filter_append]
  constructor
  · rw [List.filter_eq_nil_iff.mpr (fun e he => by simp [hchord e he]), List.nil_append]
    exact List.filter_eq_self.mpr fun e he => by simp [hkey e he]
  · rw [List.filter_eq_self.mpr hchord]
    have hnone : (l.keys.map fun k => (k.matrix, k.key)).filter (fun e => a.isExtra e.1.row) = [] :=
      List.filter_eq_nil_iff.mpr fun e he => by simp [hkey e he]
    rw [hnone, List.append_nil]

theorem bindLayer_eq_ok (hw : 0 < layout.width) (hlayout : layout.WellFormed) {l : Layer}
    (hl : l.PlacedOn layout) {bound : OrderedMap MatrixPos Action}
    (hbind : bindLayer b a l = .ok (bound, a')) (ha : a.Counted layout.width layout.height) :
    a'.Counted layout.width layout.height ∧ a.slots <+: a'.slots ∧ Binds b a'.slots l bound := by
  unfold bindLayer at hbind
  obtain ⟨⟨chordKeys, a₁⟩, hplace, hbind⟩ := bind_eq_ok_iff.mp hbind
  obtain ⟨ha₁, hgrow, hat⟩ := placeChords_eq_ok hw hplace ha (hl.pairs_nodup hlayout)
  obtain ⟨hkeys, hchords⟩ := placed_eq hw hlayout hl ha₁ hat
  simp only [hkeys, hchords] at hbind
  obtain ⟨keys, hbindKeys, hbind⟩ := bind_eq_ok_iff.mp hbind
  obtain ⟨chords, hbindChords, hbind⟩ := bind_eq_ok_iff.mp hbind
  obtain ⟨rfl, rfl⟩ := Prod.mk.inj (pure_eq_ok_iff.mp hbind)
  have hkeysEq : OrderedMap.keys keys = l.keys.map (·.matrix) := by
    rw [keys_of_bindAt hbindKeys, OrderedMap.keys, List.map_map]
    rfl
  have hchordsEq := keys_of_bindAt hbindChords
  have hslot : ∀ pos ∈ OrderedMap.keys chords, ∃ c ∈ l.chords, slotOf a₁.slots c = some pos := by
    intro pos hpos
    rw [hchordsEq] at hpos
    obtain ⟨⟨_, key⟩, he, rfl⟩ := List.mem_map.mp hpos
    obtain ⟨c, hc, hslot, -⟩ := hat.chord_of_mem he
    exact ⟨c, hc, hslot⟩
  have hchordsNodup : (OrderedMap.keys chords).Nodup :=
    hchordsEq ▸ hat.keys_nodup ha₁ (hl.pairs_nodup hlayout)
  -- A switch has a row of the matrix, a slot has a row below it.
  have hnodup : (OrderedMap.keys (keys ++ chords)).Nodup := by
    rw [OrderedMap.keys, List.map_append, List.nodup_append]
    refine ⟨?_, hchordsNodup, ?_⟩
    · show (OrderedMap.keys keys).Nodup
      rw [hkeysEq]
      exact hl.matrix_nodup hlayout
    intro p hp q hq e
    have hp' : p ∈ OrderedMap.keys keys := hp
    rw [hkeysEq] at hp'
    obtain ⟨k, hk, rfl⟩ := List.mem_map.mp hp'
    obtain ⟨c, -, hslot⟩ := hslot q hq
    obtain ⟨hlt, -, -, -, hrow⟩ := hlayout.bounds (hl.key k hk)
    have hle := (ha₁.bounds hw (OrderedMap.mem_of_get? hslot)).1
    rw [← e] at hle
    omega
  refine ⟨ha₁, hgrow, hnodup, ?_, ?_, ?_⟩
  · intro k hk
    obtain ⟨action, haction, hmem⟩ := mem_of_bindAt hbindKeys (List.mem_map.mpr ⟨k, hk, rfl⟩)
    exact ⟨action, haction, OrderedMap.get?_of_mem hnodup (List.mem_append_left _ hmem)⟩
  · intro c hc
    obtain ⟨pos, hpos, hmem⟩ := hat.slotOf_mem hc
    obtain ⟨action, haction, hmem⟩ := mem_of_bindAt hbindChords hmem
    exact ⟨pos, action, hpos, haction,
      OrderedMap.get?_of_mem hnodup (List.mem_append_right _ hmem)⟩
  · intro pos hpos
    rw [OrderedMap.keys, List.map_append, List.mem_append] at hpos
    rcases hpos with hpos | hpos
    · have hpos' : pos ∈ OrderedMap.keys keys := hpos
      rw [hkeysEq] at hpos'
      exact .inl (List.mem_map.mp hpos')
    · exact .inr (hslot pos hpos)

/-- Layers are bound one after the other; a slot that is handed out is kept to the end. -/
theorem bindLayers_eq_ok (hw : 0 < layout.width) (hlayout : layout.WellFormed)
    (layers : List Layer) (hlayers : ∀ l ∈ layers, l.PlacedOn layout)
    {bounds : List (OrderedMap MatrixPos Action)}
    (hbind : bindLayers b a layers = .ok (bounds, a'))
    (ha : a.Counted layout.width layout.height) :
    a'.Counted layout.width layout.height ∧ a.slots <+: a'.slots ∧
      bounds.length = layers.length ∧
      ∀ (i : Nat) (l : Layer), layers[i]? = some l →
        ∃ bound, bounds[i]? = some bound ∧ Binds b a'.slots l bound := by
  induction layers generalizing a bounds with
  | nil =>
    obtain ⟨rfl, rfl⟩ := Prod.mk.inj (Except.ok.inj hbind)
    exact ⟨ha, List.prefix_refl _, rfl, by simp⟩
  | cons l layers ih =>
    rw [bindLayers] at hbind
    obtain ⟨⟨bound, a₁⟩, hfirst, hbind⟩ := bind_eq_ok_iff.mp hbind
    obtain ⟨⟨others, a₂⟩, hrest, hbind⟩ := bind_eq_ok_iff.mp hbind
    obtain ⟨rfl, rfl⟩ := Prod.mk.inj (pure_eq_ok_iff.mp hbind)
    obtain ⟨ha₁, hgrow₁, hbound⟩ :=
      bindLayer_eq_ok hw hlayout (hlayers l List.mem_cons_self) hfirst ha
    obtain ⟨ha₂, hgrow₂, hlen, hothers⟩ :=
      ih (fun l' hl' => hlayers l' (List.mem_cons_of_mem _ hl')) hrest ha₁
    refine ⟨ha₂, hgrow₁.trans hgrow₂, by rw [List.length_cons, hlen, List.length_cons], ?_⟩
    intro i l' hl'
    cases i with
    -- The slots of the first layer are kept while the other layers are bound.
    | zero =>
      obtain rfl := Option.some.inj hl'
      exact ⟨bound, rfl, hbound.mono hgrow₂⟩
    | succ i => exact hothers i l' hl'

/-! ## Grids -/

theorem length_grid (rows width : Nat) (bound : OrderedMap MatrixPos Action) :
    (grid rows width bound).length = rows := by
  simp [grid]

theorem length_of_mem_grid {rows width : Nat} {bound : OrderedMap MatrixPos Action}
    {row : List Action} (hrow : row ∈ grid rows width bound) : row.length = width := by
  obtain ⟨i, -, rfl⟩ := List.mem_map.mp hrow
  simp

/-- A cell of a grid holds the action of its position, or does nothing. -/
theorem grid_cell {rows width : Nat} {bound : OrderedMap MatrixPos Action} {pos : MatrixPos}
    (hrow : pos.row < rows) (hcol : pos.col < width) :
    ((grid rows width bound)[pos.row]?.bind (·[pos.col]?)) =
      some ((bound.get? pos).getD .noOp) := by
  have hinRow : OrderedMap.get? (bound.filter fun e => e.1.row == pos.row) ⟨pos.col, pos.row⟩ =
      bound.get? pos :=
    OrderedMap.get?_filter (p := fun p : MatrixPos => p.row == pos.row) (beq_self_eq_true pos.row)
  simp only [grid, List.getElem?_map, List.getElem?_range hrow, Option.map_some,
    Option.bind_some, List.getElem?_range hcol, hinRow]

theorem action?_eq (t : Table) (i : Nat) (pos : MatrixPos) :
    t.action? i pos.row pos.col = t.layers[i]?.bind fun g => g[pos.row]?.bind (·[pos.col]?) := by
  unfold action?
  rw [if_neg (by omega)]
  rfl

/-! ## Tables -/

theorem build_eq_ok {m : Keymap} {t : Table} (h : build m = .ok t) :
    ∃ b bounds a, Binder.ofKeymap m = .ok b ∧
      bindLayers b { width := m.layout.width, height := m.layout.height } m.layers =
        .ok (bounds, a) ∧
      t = {
        width := m.layout.width
        rows := m.layout.height + a.extraRows
        layerNames := m.layerNames
        layers := bounds.map (grid (m.layout.height + a.extraRows) m.layout.width)
        chords := a.slots
        customEvent := m.options.getD .firmware "custom_event" defaultCustomEvent } := by
  unfold build at h
  obtain ⟨b, hb, h⟩ := bind_eq_ok_iff.mp h
  obtain ⟨⟨bounds, a⟩, hbind, h⟩ := bind_eq_ok_iff.mp h
  exact ⟨b, bounds, a, hb, hbind, (pure_eq_ok_iff.mp h).symm⟩

/-- Grid `i` of a table, whose matrix has `height` rows, shows exactly the layer `l`. -/
structure Shows (b : Binder) (height : Nat) (t : Table) (i : Nat) (l : Layer) : Prop where
  /-- A key is bound on its switch, inside the matrix. -/
  key : ∀ k ∈ l.keys, k.matrix.row < height ∧ k.matrix.col < t.width ∧
    ∃ action, b.bind k.key = .ok action ∧ t.action? i k.matrix.row k.matrix.col = some action
  /-- A chord has one slot, below the matrix and inside the grid, and is bound there. -/
  chord : ∀ c ∈ l.chords, ∃ pos action,
    (t.chords.filter fun e => decide (e.1 = ⟨c.left, c.right⟩)) = [(⟨c.left, c.right⟩, pos)] ∧
      height ≤ pos.row ∧ pos.row < t.rows ∧ pos.col < t.width ∧
      b.bind c.chord.key = .ok action ∧ t.action? i pos.row pos.col = some action
  /-- Every other cell does nothing. -/
  other : ∀ pos : MatrixPos, pos.row < t.rows → pos.col < t.width →
    (∀ k ∈ l.keys, k.matrix ≠ pos) → (∀ c ∈ l.chords, (⟨c.left, c.right⟩, pos) ∉ t.chords) →
      t.action? i pos.row pos.col = some .noOp
  /-- No two keys are on one switch. -/
  keys_apart : (l.keys.map (·.matrix)).Nodup
  /-- No two chords have one pair of switches. -/
  chords_apart : (l.chords.map fun c => (c.left, c.right)).Nodup

/-- The table of a keymap that was read has one grid for each layer, in the order the layers were
declared, and each grid shows its layer. No slot is shared by two pairs of switches. -/
theorem build_shows_layers {source : Text} {defaults : List DefaultOption} {m : Keymap}
    {t : Table} (hread : Keymap.read source defaults = .ok m) (hbuild : build m = .ok t) :
    t.layerNames = m.description.layers.map (·.name) ∧
      t.layers.length = m.description.layers.length ∧
      (∀ g ∈ t.layers, g.length = t.rows ∧ ∀ row ∈ g, row.length = t.width) ∧
      t.chords.keys.Nodup ∧ (t.chords.map (·.2)).Nodup ∧
      ∃ b, Binder.ofKeymap m = .ok b ∧
        ∀ (i : Nat) (l : Layer), m.layers[i]? = some l → Shows b m.layout.height t i l := by
  have hm := Keymap.wellFormed_of_read hread
  unfold build at hbuild
  obtain ⟨b, hb, hbuild⟩ := bind_eq_ok_iff.mp hbuild
  obtain ⟨⟨bounds, a⟩, hbind, hbuild⟩ := bind_eq_ok_iff.mp hbuild
  obtain rfl := pure_eq_ok_iff.mp hbuild
  obtain ⟨ha, -, hlen, hbounds⟩ := bindLayers_eq_ok hm.width_pos hm.layout m.layers
    (fun l hl => hm.placedOn hl) hbind (Allocator.counted_empty _ _)
  refine ⟨hm.layerNames_eq, ?_, ?_, ha.keys_nodup, ha.slots_nodup, b, hb, ?_⟩
  · rw [List.length_map, hlen, length_of_mapM hm.layers]
  · intro g hg
    obtain ⟨bound, -, rfl⟩ := List.mem_map.mp hg
    exact ⟨length_grid _ _ _, fun row hrow => length_of_mem_grid hrow⟩
  intro i l hl
  obtain ⟨bound, hbound, hbinds⟩ := hbounds i l hl
  have hplaced := hm.placedOn (List.mem_of_getElem? hl)
  -- All three parts of `Shows` look up a cell.
  have hcell : ∀ pos : MatrixPos, pos.row < m.layout.height + a.extraRows →
      pos.col < m.layout.width → Table.action? ⟨m.layout.width, m.layout.height + a.extraRows,
        m.layerNames, bounds.map (grid (m.layout.height + a.extraRows) m.layout.width), a.slots,
        m.options.getD .firmware "custom_event" defaultCustomEvent⟩ i pos.row pos.col =
          some ((bound.get? pos).getD .noOp) := by
    intro pos hrow hcol
    rw [action?_eq, List.getElem?_map, hbound]
    exact grid_cell hrow hcol
  refine ⟨?_, ?_, ?_, hplaced.matrix_nodup hm.layout, hplaced.pairs_nodup hm.layout⟩
  · intro k hk
    obtain ⟨hlt, -, hcol, -, hrow⟩ := hm.layout.bounds (hplaced.key k hk)
    obtain ⟨action, haction, hget⟩ := hbinds.key k hk
    refine ⟨by omega, hcol, action, haction, ?_⟩
    rw [hcell k.matrix (by omega) hcol, hget]
    rfl
  · intro c hc
    obtain ⟨pos, action, hslot, haction, hget⟩ := hbinds.chord c hc
    have hmem := OrderedMap.mem_of_get? hslot
    obtain ⟨hge, hlt, hcol⟩ := ha.bounds hm.width_pos hmem
    refine ⟨pos, action, OrderedMap.filter_key_eq ha.keys_nodup hmem, hge, hlt, hcol, haction, ?_⟩
    rw [hcell pos hlt hcol, hget]
    rfl
  · intro pos hrow hcol hkeys hchords
    rw [hcell pos hrow hcol]
    -- A cell that is written belongs to a key or to a chord.
    have hnone : bound.get? pos = none := by
      refine OrderedMap.get?_eq_none_iff.mpr fun hmem => ?_
      rcases hbinds.only pos hmem with ⟨k, hk, hpos⟩ | ⟨c, hc, hslot⟩
      · exact hkeys k hk hpos
      · exact hchords c hc (OrderedMap.mem_of_get? hslot)
    rw [hnone]
    rfl

/-- A layer with two keys and a chord between them. -/
theorem build_shows_layer_with_chord : ∃ m t b l,
    Keymap.read (Text.ofString "layout \x7b 2k; \x7d layer l \x7b '1' >'2'< '3'; \x7d") [] = .ok m ∧
      build m = .ok t ∧ m.layers[0]? = some l ∧ l.keys.length = 2 ∧ l.chords.length = 1 ∧
      Shows b m.layout.height t 0 l := by
  have hrun : ((Keymap.read (Text.ofString
      "layout \x7b 2k; \x7d layer l \x7b '1' >'2'< '3'; \x7d") []).toOption.bind fun m =>
        (build m).toOption.bind fun _ =>
          m.layers[0]?.map fun l => (l.keys.length, l.chords.length)) = some (2, 1) := by
    decide +kernel
  obtain ⟨m, hm, hrun⟩ := Option.bind_eq_some_iff.mp hrun
  obtain ⟨t, ht, hrun⟩ := Option.bind_eq_some_iff.mp hrun
  obtain ⟨l, hl, hcounts⟩ := Option.map_eq_some_iff.mp hrun
  obtain ⟨hkeys, hchords⟩ := Prod.mk.inj hcounts
  have hread := toOption_eq_some_iff.mp hm
  have hbuild := toOption_eq_some_iff.mp ht
  obtain ⟨-, -, -, -, -, b, -, hshows⟩ := build_shows_layers hread hbuild
  exact ⟨m, t, b, l, hread, hbuild, hl, hkeys, hchords, hshows 0 l hl⟩

end Table

end Keyplan.Firmware
