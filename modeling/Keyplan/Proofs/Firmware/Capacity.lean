import Keyplan.Proofs.Keymap.Chords
import Keyplan.Proofs.Layout.Numbering
import Keyplan.Proofs.OptionTable
import Mathlib.Algebra.Group.Action.Defs
import Mathlib.Algebra.Order.BigOperators.Group.List
import Mathlib.Data.List.Perm.Subperm

/-!
# Capacity — how many chords a layout can have, and which keymaps have too many

A chord sits between two neighbouring keys of a row, so there are no more pairs of switches with a
chord than neighbours in the rows, and the slots of chords take no more rows than the matrix has.
Only below a matrix with more than half of all rows can there be more pairs than slots. A firmware
fails for want of a slot exactly when all layers before the first pair without one can be bound.
-/

namespace Keyplan

open Outcome

/-! ## 1. Neighbours -/

namespace Layout

open Firmware (ChordPair)

/-- The pairs of neighbours in a row of cells, from left to right. -/
def rowNeighbours (entry : List Slot × Nat) : List ChordPair :=
  List.zipWith ChordPair.mk (rowSwitches entry) (rowSwitches entry).tail

/-- The pairs of switches that chords can sit between. -/
def neighbours (l : Layout) : List ChordPair :=
  l.rows.zipIdx.flatMap rowNeighbours

theorem length_neighbours (l : Layout) :
    l.neighbours.length = (l.keyCounts.map (· - 1)).sum := by
  have hrow : (fun entry => (rowNeighbours entry).length) =
      (· - 1) ∘ fun entry => (rowSwitches entry).length := by
    funext entry
    rw [rowNeighbours, List.length_zipWith, List.length_tail]
    exact Nat.min_eq_right (Nat.sub_le _ _)
  rw [neighbours, List.length_flatMap, hrow, ← List.map_map, length_rowSwitches]

/-- A row has no more neighbours than cells. -/
theorem WellFormed.length_neighbours_le {l : Layout} (hl : l.WellFormed) :
    l.neighbours.length ≤ l.width * l.height := by
  have hle : ∀ n ∈ l.keyCounts.map (· - 1), n ≤ l.width := by
    intro n hn
    obtain ⟨count, hcount, rfl⟩ := List.mem_map.mp hn
    obtain ⟨row, hrow, rfl⟩ := List.mem_map.mp hcount
    have hcells : (rowKeys row).length ≤ row.zipIdx.length := List.length_filterMap_le _ _
    rw [List.length_zipIdx, hl.length_eq row hrow] at hcells
    exact Nat.le_trans (Nat.sub_le _ _) hcells
  have hsum := List.sum_le_card_nsmul _ _ hle
  rwa [List.length_map, length_keyCounts, smul_eq_mul, Nat.mul_comm, ← length_neighbours] at hsum

theorem mem_neighbours {l : Layout} {p : LayoutPos} {left right : MatrixPos}
    (hleft : l.matrixAt? p = some left) (hright : l.matrixAt? ⟨p.col + 1, p.row⟩ = some right) :
    ⟨left, right⟩ ∈ l.neighbours := by
  obtain ⟨slots, hslots, hl⟩ := rowSwitches_getElem? hleft
  obtain ⟨slots', hslots', hr⟩ := rowSwitches_getElem? hright
  rw [hslots] at hslots'
  obtain ⟨rfl, -⟩ := Prod.mk.inj (Option.some.inj hslots')
  refine List.mem_flatMap.mpr ⟨_, List.mem_of_getElem? hslots, ?_⟩
  apply List.mem_of_getElem? (i := p.col)
  rw [rowNeighbours, List.getElem?_zipWith, hl, List.getElem?_tail, hr]

end Layout

namespace Keymap.WellFormed

theorem length_pairs_le {m : Keymap} (hm : m.WellFormed) :
    m.pairs.eraseDups.length ≤ m.layout.neighbours.length := by
  apply (List.subperm_of_subset (OrderedMap.nodup_eraseDups m.pairs) _).length_le
  intro p hp
  obtain ⟨l, hl, hp⟩ := List.mem_flatMap.mp (List.mem_eraseDups.mp hp)
  obtain ⟨c, hc, rfl⟩ := List.mem_map.mp hp
  have hplaced := hm.placedOn hl
  exact Layout.mem_neighbours (Layout.matrixAt?_eq_some_iff.mpr (hplaced.left c hc))
    (Layout.matrixAt?_eq_some_iff.mpr (hplaced.right c hc))

end Keymap.WellFormed

namespace Firmware

/-! ## 2. Slots for a layer -/

namespace Allocator

variable {κ : Type} [DecidableEq κ] {w h : Nat} {a a' : Allocator κ} {ks : List κ}

/-- While all keys have slots, a request for one more succeeds only if there is room for it. -/
theorem Serves.allocate_eq_ok (hw : 0 < w) (hw' : w ≤ maxCoordinate + 1) (ha : Serves w h ks a)
    (hfits : ks.length ≤ room w h) {k : κ} {span : Span} {pos : MatrixPos}
    (halloc : a.allocate k span = .ok (pos, a')) :
    Serves w h (ask ks k) a' ∧ (ask ks k).length ≤ room w h := by
  obtain ⟨ha', i, hi, hanswer⟩ := ha.request hw hw' k span
  rw [Allocator.request, halloc] at ha' hanswer
  refine ⟨ha', ?_⟩
  by_cases hk : k ∈ ks
  · rwa [ask, if_pos hk]
  -- A new key comes last, so its number is that of all keys before it.
  · rw [ask, if_neg hk] at hi ⊢
    have hlast : (ks ++ [k])[ks.length]? = some k := by simp
    have hnodup := nodup_ask ha.nodup k
    rw [ask, if_neg hk] at hnodup
    have hnumber : i = ks.length :=
      (List.getElem?_inj (List.getElem?_eq_some_iff.mp hi).1 hnodup).mp (hi.trans hlast.symm)
    have hroom := (row_le_iff hw i).mp hanswer.1
    rw [List.length_append, List.length_singleton]
    omega

/-- A request fails for want of room only. -/
theorem Serves.allocate_meets (hw : 0 < w) (hw' : w ≤ maxCoordinate + 1) (ha : Serves w h ks a)
    (k : κ) (span : Span) :
    Meets (fun d => d.cause = .meaning .coordinateOutOfRange)
      (fun found => Serves w h (ask ks k) (Prod.snd found)) (a.allocate k span) := by
  obtain ⟨ha', i, -, hanswer⟩ := ha.request hw hw' k span
  unfold Allocator.request at ha' hanswer
  cases halloc : a.allocate k span with
  | ok found =>
    rw [halloc] at ha'
    exact ha'
  | error d =>
    rw [halloc] at hanswer
    exact hanswer.2.1

/-- A key of the first list is among the first keys without repetitions. -/
theorem lt_length_eraseDups_iff {xs ys : List κ} {n : Nat} {k : κ}
    (h : (xs ++ ys).eraseDups[n]? = some k) : n < xs.eraseDups.length ↔ k ∈ xs := by
  obtain ⟨later, hlater⟩ := eraseDups_prefix xs ys
  have hlt := (List.getElem?_eq_some_iff.mp h).1
  constructor
  · intro hn
    rw [← hlater, List.getElem?_append_left hn] at h
    exact List.mem_eraseDups.mp (List.mem_of_getElem? h)
  · intro hk
    obtain ⟨i, hi⟩ := List.getElem?_of_mem (List.mem_eraseDups.mpr hk)
    have hbound := (List.getElem?_eq_some_iff.mp hi).1
    have hsplit : (xs.eraseDups ++ later)[i]? = xs.eraseDups[i]? :=
      List.getElem?_append_left hbound
    rw [← hsplit, hlater] at hi
    have hsame := (List.getElem?_inj hlt (OrderedMap.nodup_eraseDups _)).mp (h.trans hi.symm)
    rwa [hsame]

end Allocator

end Firmware

def Layer.Binds (l : Layer) (b : Firmware.Binder) : Prop :=
  ∀ k ∈ l.bindings, ∃ action, b.bind k = .ok action

namespace Firmware

namespace Table

open Allocator (Serves room)

variable {layout : Layout} {b : Binder} {a : Allocator ChordPair} {done : List ChordPair}

theorem binds_iff (b : Binder) (l : Layer) :
    l.Binds b ↔
      ∀ k ∈ l.bindings.flatMap Key.plainKeys, b.keymap.offence? .firmware k = none := by
  simp only [Layer.Binds, (b.bind_checks _).succeeds_iff, List.mem_flatMap, forall_exists_index,
    and_imp]
  exact ⟨fun h k key hkey hk => h key hkey k hk, fun h key hkey k hk => h k key hkey hk⟩

/-- Keys are never out of range. -/
theorem cause_of_checks {α : Type} {m : Keymap} {backend : Backend} {keys : List PlainKey}
    {x : Except Diagnostic α} (hx : Checks (m.offence? backend) keys x) {d : Diagnostic}
    (hd : x = .error d) : d.cause ≠ .meaning .coordinateOutOfRange := by
  obtain ⟨before, k, after, -, hk, -⟩ := hx.first hd
  obtain ⟨fault, hfault, hk⟩ := Option.map_eq_some_iff.mp hk
  intro hcause
  rw [hcause] at hk
  obtain rfl := Cause.meaning.inj (Prod.mk.inj hk).1
  unfold Keymap.fault? at hfault
  split at hfault <;> split at hfault <;> cases hfault

/-- A layer with chords on more pairs of switches than there are slots. -/
theorem placeChords_overflows {w h : Nat} (hw : 0 < w) (hw' : w ≤ maxCoordinate + 1) {l : Layer}
    (ha : Serves w h done.eraseDups a) (hfits : done.eraseDups.length ≤ room w h)
    (hfull : room w h < (done ++ l.pairs).eraseDups.length) :
    ∃ d, placeChords a l.chords = .error d ∧ d.cause = .meaning .coordinateOutOfRange := by
  cases hplace : placeChords a l.chords with
  | ok state =>
    have hall : Serves w h (done ++ l.pairs).eraseDups state.2 ∧
        (done ++ l.pairs).eraseDups.length ≤ room w h := by
      apply foldlM_of_ok (P := fun seen state =>
        Serves w h (done ++ seen.map PlacedChord.pair).eraseDups (Prod.snd state) ∧
          (done ++ seen.map PlacedChord.pair).eraseDups.length ≤ room w h)
        ?_ l.chords [] (List.nil_append _) ?_ hplace
      · rintro seen c rest ⟨placed, a⟩ ⟨placed', a'⟩ - ⟨ha, hfits⟩ hstep
        obtain ⟨⟨pos, a₁⟩, halloc, hstep⟩ := bind_eq_ok_iff.mp hstep
        obtain ⟨-, rfl⟩ := Prod.mk.inj (pure_eq_ok_iff.mp hstep)
        have hmore := ha.allocate_eq_ok hw hw' hfits halloc
        rw [← Allocator.eraseDups_concat, List.append_assoc] at hmore
        rw [List.map_append]
        exact hmore
      · rw [List.map_nil, List.append_nil]
        exact ⟨ha, hfits⟩
    omega
  | error d =>
    refine ⟨d, rfl, ?_⟩
    have hmeets : Meets (fun d => d.cause = .meaning .coordinateOutOfRange)
        (fun state => ∃ ks, Serves w h ks (Prod.snd state)) (placeChords a l.chords) := by
      apply Meets.foldlM ?_ ⟨_, ha⟩
      rintro c - ⟨placed, a⟩ ⟨ks, ha⟩
      refine (ha.allocate_meets hw hw' c.pair c.chord.span).bind fun found hfound => ?_
      exact ⟨_, hfound⟩
    rw [hplace] at hmeets
    exact hmeets

/-! ## 3. Slots for all layers -/

/-- Behind the pairs `done` there are `n` slots for layers, too few for all of them, and the layers
before the first one that asks for more can be bound. -/
def RunsOut (b : Binder) (n : Nat) (done : List ChordPair) (layers : List Layer) : Prop :=
  ∃ before l after, layers = before ++ l :: after ∧ (∀ l' ∈ before, l'.Binds b) ∧
    (done ++ before.flatMap Layer.pairs).eraseDups.length ≤ n ∧
    n < (done ++ before.flatMap Layer.pairs ++ l.pairs).eraseDups.length

theorem runsOut_cons {n : Nat} (hdone : done.eraseDups.length ≤ n) (l : Layer)
    (layers : List Layer) :
    RunsOut b n done (l :: layers) ↔ n < (done ++ l.pairs).eraseDups.length ∨
      (done ++ l.pairs).eraseDups.length ≤ n ∧ l.Binds b ∧
        RunsOut b n (done ++ l.pairs) layers := by
  constructor
  · rintro ⟨before, l', after, heq, hbinds, hfits, hfull⟩
    cases before with
    | nil =>
      obtain ⟨rfl, -⟩ := List.cons.inj heq
      rw [List.flatMap_nil, List.append_nil] at hfull
      exact .inl hfull
    | cons first before =>
      obtain ⟨rfl, rfl⟩ := List.cons.inj heq
      obtain ⟨hfirst, hbinds⟩ := List.forall_mem_cons.mp hbinds
      rw [List.flatMap_cons, ← List.append_assoc] at hfits hfull
      have hprefix := Allocator.eraseDups_prefix (done ++ l.pairs) (before.flatMap Layer.pairs)
      exact .inr ⟨Nat.le_trans hprefix.length_le hfits, hfirst, before, l', after, rfl, hbinds,
        hfits, hfull⟩
  · rintro (hfull | ⟨-, hfirst, before, l', after, rfl, hbinds, hfits, hfull⟩)
    · refine ⟨[], l, layers, rfl, nofun, ?_, ?_⟩
      · rwa [List.flatMap_nil, List.append_nil]
      · rwa [List.flatMap_nil, List.append_nil]
    · refine ⟨l :: before, l', after, rfl, List.forall_mem_cons.mpr ⟨hfirst, hbinds⟩, ?_, ?_⟩
      · rwa [List.flatMap_cons, ← List.append_assoc]
      · rwa [List.flatMap_cons, ← List.append_assoc]

theorem bindLayers_runsOut_iff (hw : 0 < layout.width) (hlayout : layout.WellFormed)
    (layers : List Layer) (hlayers : ∀ l ∈ layers, l.PlacedOn layout)
    (ha : Serves layout.width layout.height done.eraseDups a)
    (hfits : done.eraseDups.length ≤ room layout.width layout.height) :
    (∃ d, bindLayers b a layers = .error d ∧ d.cause = .meaning .coordinateOutOfRange) ↔
      RunsOut b (room layout.width layout.height) done layers := by
  induction layers generalizing a done with
  | nil => simp [bindLayers, RunsOut]
  | cons l layers ih =>
    obtain ⟨hl, hrest⟩ := List.forall_mem_cons.mp hlayers
    have hfails : ∀ d, bindLayers b a (l :: layers) = .error d ↔ bindLayer b a l = .error d ∨
        ∃ bound a', bindLayer b a l = .ok (bound, a') ∧ bindLayers b a' layers = .error d := by
      intro d
      have hpure : ∀ bound (found : List (OrderedMap MatrixPos Action) × Allocator ChordPair),
          (pure (bound :: found.1, found.2) : Except Diagnostic _) ≠ .error d := by
        intro bound found h
        cases h
      rw [bindLayers]
      simp only [bind_eq_error_iff, Prod.exists, hpure, and_false, exists_false, or_false]
    simp only [hfails, runsOut_cons hfits]
    by_cases hroom : (done ++ l.pairs).eraseDups.length ≤ room layout.width layout.height
    -- The layer has all its slots, so it fails because of a key or not at all.
    · obtain ⟨hbind, hserves⟩ := bindLayer_checks (b := b) hw hlayout hl ha hroom
      have hbinds : (∃ found, bindLayer b a l = .ok found) ↔ l.Binds b := by
        rw [hbind.succeeds_iff, binds_iff]
      simp only [Nat.not_lt.mpr hroom, hroom, false_or, true_and, ← hbinds]
      cases hlayer : bindLayer b a l with
      | error d =>
        have hcause := cause_of_checks hbind hlayer
        simp [hcause]
      | ok found =>
        obtain ⟨bound, a'⟩ := found
        rw [← ih hrest (hserves bound a' hlayer) hroom]
        simp
    · obtain ⟨d, hd, hcause⟩ :=
        placeChords_overflows hw hlayout.width_le ha hfits (Nat.lt_of_not_le hroom)
      have hlayer : bindLayer b a l = .error d := by
        rw [bindLayer, hd]
        rfl
      exact iff_of_true ⟨d, .inl hlayer, hcause⟩ (.inl (Nat.lt_of_not_le hroom))

/-- The first pair without a slot is the one with the number of the slots there are. -/
theorem runsOut_iff {n : Nat} {layers : List Layer} :
    RunsOut b n [] layers ↔ ∃ p before l after,
      (layers.flatMap Layer.pairs).eraseDups[n]? = some p ∧ layers = before ++ l :: after ∧
        p ∈ l.pairs ∧ ∀ l' ∈ before, p ∉ l'.pairs ∧ l'.Binds b := by
  have hpairs (before : List Layer) (l : Layer) (after : List Layer) :
      (before ++ l :: after).flatMap Layer.pairs =
        before.flatMap Layer.pairs ++ (l.pairs ++ after.flatMap Layer.pairs) := by
    rw [List.flatMap_append, List.flatMap_cons]
  constructor
  · rintro ⟨before, l, after, rfl, hbinds, hfits, hfull⟩
    rw [List.nil_append] at hfits hfull
    rw [hpairs]
    have hprefix := Allocator.eraseDups_prefix (before.flatMap Layer.pairs ++ l.pairs)
      (after.flatMap Layer.pairs)
    rw [List.append_assoc] at hprefix
    obtain ⟨p, hp⟩ : ∃ p, (before.flatMap Layer.pairs ++
        (l.pairs ++ after.flatMap Layer.pairs)).eraseDups[n]? = some p :=
      ⟨_, List.getElem?_eq_getElem (Nat.lt_of_lt_of_le hfull hprefix.length_le)⟩
    -- Pair number `n` is met on `l`, and on no layer before it.
    have hbefore : p ∉ before.flatMap Layer.pairs := by
      rw [← Allocator.lt_length_eraseDups_iff hp]
      exact Nat.not_lt.mpr hfits
    have hhere : p ∈ before.flatMap Layer.pairs ++ l.pairs :=
      (Allocator.lt_length_eraseDups_iff (by rwa [List.append_assoc])).mp hfull
    refine ⟨p, before, l, after, hp, rfl, (List.mem_append.mp hhere).resolve_left hbefore, ?_⟩
    exact fun l' hl' => ⟨fun hmem => hbefore (List.mem_flatMap.mpr ⟨l', hl', hmem⟩), hbinds l' hl'⟩
  · rintro ⟨p, before, l, after, hp, rfl, hhere, hbefore⟩
    rw [hpairs] at hp
    refine ⟨before, l, after, rfl, fun l' hl' => (hbefore l' hl').2, ?_, ?_⟩
    · rw [List.nil_append, ← Nat.not_lt, Allocator.lt_length_eraseDups_iff hp, List.mem_flatMap]
      rintro ⟨l', hl', hmem⟩
      exact (hbefore l' hl').1 hmem
    · rw [List.nil_append]
      exact (Allocator.lt_length_eraseDups_iff (by rwa [List.append_assoc])).mpr
        (List.mem_append_right _ hhere)

/-! ## 4. Keymaps -/

theorem ofKeymap_cause {m : Keymap} {d : Diagnostic} (h : Binder.ofKeymap m = .error d) :
    d.cause ≠ .meaning .coordinateOutOfRange := by
  have hnumber {name : String} {default : Int}
      (h : m.options.number .firmware name default = .error d) :
      d.cause ≠ .meaning .coordinateOutOfRange := by
    obtain ⟨v, -, hcause, -⟩ := OptionTable.number_eq_error h
    rw [hcause]
    nofun
  unfold Binder.ofKeymap at h
  rcases bind_eq_error_iff.mp h with h | ⟨timeout, -, h⟩
  · exact hnumber h
  rcases bind_eq_error_iff.mp h with h | ⟨interval, -, h⟩
  · exact hnumber h
  · cases h

theorem build_runsOut_iff {m : Keymap} (hm : m.WellFormed) :
    (∃ d, build m = .error d ∧ d.cause = .meaning .coordinateOutOfRange) ↔
      ∃ b, Binder.ofKeymap m = .ok b ∧
        RunsOut b (room m.layout.width m.layout.height) [] m.layers := by
  have hempty : Serves m.layout.width m.layout.height ([] : List ChordPair).eraseDups _ :=
    Allocator.serves_empty _ _
  have hlayers (b : Binder) := bindLayers_runsOut_iff (b := b) hm.width_pos hm.layout m.layers
    (fun l hl => hm.placedOn hl) hempty (Nat.zero_le _)
  simp only [← hlayers]
  constructor
  · rintro ⟨d, hd, hcause⟩
    rcases bind_eq_error_iff.mp hd with hd | ⟨b, hb, hd⟩
    · exact absurd hcause (ofKeymap_cause hd)
    rcases bind_eq_error_iff.mp hd with hd | ⟨found, -, hd⟩
    · exact ⟨b, hb, d, hd, hcause⟩
    · cases hd
  · rintro ⟨b, hb, d, hd, hcause⟩
    refine ⟨d, ?_, hcause⟩
    rw [build, hb, ok_bind, hd]
    rfl

end Table

end Firmware

namespace Keymap

open Firmware

/-- The number of rows that slots for all pairs of switches with a chord take. -/
def extraRows (m : Keymap) : Nat :=
  (m.pairs.eraseDups.length + m.layout.width - 1) / m.layout.width

/-- The first pair of switches that no slot is left for stands on a layer behind layers that can be
bound. -/
def LacksSlot (m : Keymap) (b : Binder) : Prop :=
  ∃ p before l after, m.pairs.eraseDups[m.layout.width * (256 - m.layout.height)]? = some p ∧
    m.layers = before ++ l :: after ∧ p ∈ l.pairs ∧ ∀ l' ∈ before, p ∉ l'.pairs ∧ l'.Binds b

/-- The chords of a keymap are bounded by its layout. -/
structure GrowsWithinLayout (m : Keymap) : Prop where
  pairs_le : m.pairs.eraseDups.length ≤ (m.layout.keyCounts.map (· - 1)).sum
  extraRows_le : m.extraRows ≤ m.layout.height
  rows : ∀ t, Table.build m = .ok t →
    t.rows = m.layout.height + m.extraRows ∧ t.rows ≤ 2 * m.layout.height
  /-- A firmware is out of range when a pair of switches lacks a slot. -/
  outOfRange : (∃ d, Table.build m = .error d ∧ d.cause = .meaning .coordinateOutOfRange) ↔
    ∃ b, Binder.ofKeymap m = .ok b ∧
      m.layout.width * (256 - m.layout.height) < m.pairs.eraseDups.length ∧ m.LacksSlot b
  /-- There are enough slots below a matrix with at most half of all rows. -/
  inRange : m.layout.height ≤ 128 →
    ∀ d, Table.build m = .error d → d.cause ≠ .meaning .coordinateOutOfRange

theorem WellFormed.length_eraseDups_pairs_le {m : Keymap} (hm : m.WellFormed) :
    m.pairs.eraseDups.length ≤ m.layout.width * m.layout.height :=
  Nat.le_trans hm.length_pairs_le hm.layout.length_neighbours_le

theorem WellFormed.extraRows_le {m : Keymap} (hm : m.WellFormed) :
    m.extraRows ≤ m.layout.height := by
  have hle := hm.length_eraseDups_pairs_le
  have hw := hm.width_pos
  apply Nat.le_of_lt_succ
  apply Nat.div_lt_of_lt_mul
  rw [Nat.mul_succ]
  omega

theorem WellFormed.rows_of_build {m : Keymap} (hm : m.WellFormed) {t : Table}
    (h : Table.build m = .ok t) : t.rows = m.layout.height + m.extraRows := by
  have hkeys := Table.keys_chords_of_build h
  obtain ⟨b, bounds, a, -, hbind, rfl⟩ := Table.build_eq_ok h
  have hcounted := (Table.bindLayers_eq_ok hm.width_pos hm.layout m.layers
    (fun l hl => hm.placedOn hl) hbind (Allocator.counted_empty _ _)).1
  have hslots : a.slots.length = m.pairs.eraseDups.length := by
    rw [← hkeys, OrderedMap.keys, List.length_map]
  show m.layout.height + a.extraRows = _
  rw [hcounted.extraRows_eq_div hm.width_pos, hslots, extraRows]

/-- Chords take no more rows than the layout has, and a firmware is out of range only when the
first pair of switches without a slot is reached. -/
theorem growsWithinLayout {source : Text} {defaults : List DefaultOption} {m : Keymap}
    (hread : Keymap.read source defaults = .ok m) : m.GrowsWithinLayout := by
  have hm := wellFormed_of_read hread
  have houtOfRange : (∃ d, Table.build m = .error d ∧ d.cause = .meaning .coordinateOutOfRange) ↔
      ∃ b, Binder.ofKeymap m = .ok b ∧
        m.layout.width * (256 - m.layout.height) < m.pairs.eraseDups.length ∧ m.LacksSlot b := by
    rw [Table.build_runsOut_iff hm]
    simp only [Table.runsOut_iff]
    constructor
    · rintro ⟨b, hb, p, before, l, after, hp, hlacks⟩
      exact ⟨b, hb, (List.getElem?_eq_some_iff.mp hp).1, p, before, l, after, hp, hlacks⟩
    · rintro ⟨b, hb, -, hlacks⟩
      exact ⟨b, hb, hlacks⟩
  refine ⟨?_, hm.extraRows_le, fun t ht => ?_, houtOfRange, fun hheight d hd hcause => ?_⟩
  · rw [← Layout.length_neighbours]
    exact hm.length_pairs_le
  · have hrows := hm.rows_of_build ht
    have hle := hm.extraRows_le
    omega
  · obtain ⟨b, -, hmore, -⟩ := houtOfRange.mp ⟨d, hd, hcause⟩
    have hle := hm.length_eraseDups_pairs_le
    have hhalf : m.layout.width * m.layout.height ≤
        m.layout.width * (256 - m.layout.height) := Nat.mul_le_mul_left _ (by omega)
    omega

/-- On three keys in a row both bounds are reached: there are two pairs, and as many rows with slots
as there are rows with keys. -/
theorem growsWithinLayout_sharedChords : ∃ m t, Keymap.read sharedChords [] = .ok m ∧
    Table.build m = .ok t ∧ m.GrowsWithinLayout ∧ m.layout.keyCounts = [3] ∧
    m.pairs.eraseDups.length = 2 ∧ m.extraRows = 1 ∧ t.rows = 2 := by
  have hrun : ((Keymap.read sharedChords []).toOption.bind fun m =>
      (Table.build m).toOption.map fun t => (m.layout.keyCounts, m.pairs.eraseDups.length,
        m.extraRows, t.rows)) = some ([3], 2, 1, 2) := by
    decide +kernel
  obtain ⟨m, hm, hrun⟩ := Option.bind_eq_some_iff.mp hrun
  obtain ⟨t, ht, hrun⟩ := Option.map_eq_some_iff.mp hrun
  simp only [Prod.mk.injEq] at hrun
  have hread := toOption_eq_some_iff.mp hm
  exact ⟨m, t, hread, toOption_eq_some_iff.mp ht, growsWithinLayout hread, hrun⟩

/-- Two keys with a chord on a layout that has all rows a matrix can have. -/
def chordOnTallLayout : Description where
  layout := { rows := List.replicate 256 { items := [⟨.keys 2, {}⟩] } }
  layers :=
    let k : Key := { tap := { meaning := .char '1' } }
    [{ name := "a", rows := [{ items := [.key k, .chord { key := k }, .key k] }] }]

-- No slot is left for the chord.
example : ((Keymap.resolve chordOnTallLayout []).toOption.bind fun m =>
    complaint? (Table.build m)) = some (.meaning .coordinateOutOfRange, {}) := by
  decide +kernel

end Keymap

end Keyplan
