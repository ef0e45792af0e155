import Keyplan.Compilation
import Keyplan.Proofs.Firmware.Requests
import Keyplan.Proofs.Firmware.Table

/-!
# Agreement — the backends find the same fault first

The firmware and the diagram of a keymap are built by two traversals. Each of them complains about
the first key that means nothing to its backend, in one order: layer by layer, the keys of a layer
before its chords, and the tapped key before the held one. The firmware collects the chords of a
layer before its keys and binds them behind the keys; since no position is written twice, nothing
changes its place on the way.
-/

namespace Keyplan

open Outcome

/-! ## 1. Keys in the order they are written -/

namespace RowItem

def key? : RowItem → Option Key
  | key k => some k
  | chord _ => none

def chord? : RowItem → Option Chord
  | key _ => none
  | chord c => some c

end RowItem

/-- The keys of a layer block, row by row, and then the keys of its chords. -/
def LayerBlock.keys (b : LayerBlock) : List Key :=
  b.rows.flatMap (fun row => row.items.filterMap RowItem.key?) ++
    b.rows.flatMap fun row => (row.items.filterMap RowItem.chord?).map (·.key)

/-- The plain keys of a description: layer by layer, and the tapped one of a key first. -/
def Description.plainKeys (d : Description) : List PlainKey :=
  d.layers.flatMap fun b => b.keys.flatMap Key.plainKeys

def PlacedChord.pair (c : PlacedChord) : Firmware.ChordPair :=
  ⟨c.left, c.right⟩

namespace Layer

/-- What a layer binds: its keys and then its chords. -/
def bindings (l : Layer) : List Key :=
  l.keys.map (·.key) ++ l.chords.map (·.chord.key)

def pairs (l : Layer) : List Firmware.ChordPair :=
  l.chords.map PlacedChord.pair

variable {layout : Layout} {row : Nat}

/-- Placing takes the items of a row apart and keeps their order. -/
theorem PlacedItems.split {afterKey : Bool} {col : Nat} {items : List RowItem}
    {keys : List PlacedKey} {chords : List PlacedChord}
    (h : PlacedItems layout row afterKey col items keys chords) :
    keys.map (·.key) = items.filterMap RowItem.key? ∧
      chords.map (·.chord) = items.filterMap RowItem.chord? := by
  induction h with
  | nil => exact ⟨rfl, rfl⟩
  | key under rest ih => exact ⟨congrArg (_ :: ·) ih.1, ih.2⟩
  | chord underLeft underRight rest ih => exact ⟨ih.1, congrArg (_ :: ·) ih.2⟩

theorem PlacedRows.split {nodes : List LayerRow} {keys : List PlacedKey}
    {chords : List PlacedChord} (h : PlacedRows layout row nodes keys chords) :
    keys.map (·.key) = nodes.flatMap (fun node => node.items.filterMap RowItem.key?) ∧
      chords.map (·.chord) = nodes.flatMap fun node => node.items.filterMap RowItem.chord? := by
  induction h with
  | nil => exact ⟨rfl, rfl⟩
  | cons inside here below ih =>
    rw [List.map_append, List.map_append, List.flatMap_cons, List.flatMap_cons, here.split.1,
      here.split.2, ih.1, ih.2]
    exact ⟨rfl, rfl⟩

theorem bindings_of_resolve {block : LayerBlock} {l : Layer}
    (h : resolve layout block = .ok l) : block.keys = l.bindings := by
  have hsplit := (resolve_eq_ok_iff.mp h).2.2.split
  have hchords := congrArg (List.map Chord.key) hsplit.2
  rw [List.map_map, List.map_flatMap] at hchords
  rw [LayerBlock.keys, bindings, hsplit.1]
  exact congrArg _ hchords.symm

end Layer

/-! ## 2. Faults of plain keys -/

theorem CharKey.isSome_find? (c : Char) : (find? c).isSome ↔ c ∈ all.map (·.char) := by
  simp [find?]

theorem NamedKey.isSome_find? (name : String) : (find? name).isSome ↔ name ∈ names := by
  simp [find?, names]

namespace Keymap

/-- What is wrong with a plain key for a backend: a layer that was not declared, a character that
no key types, or a name that is neither a named key nor a custom key of the backend. -/
def fault? (m : Keymap) (b : Backend) (k : PlainKey) : Option SemanticFault :=
  match k.meaning with
  | .layer name => if name ∈ m.layerNames then none else some .unknownLayer
  | .char c _ => if c ∈ CharKey.all.map (·.char) then none else some .unknownCharKey
  | .named name =>
    if (m.customKeys.get? b name).isSome ∨ name ∈ NamedKey.names then none
    else some .unknownNamedKey

/-- The complaint about a plain key. -/
def offence? (m : Keymap) (b : Backend) (k : PlainKey) : Option (Cause × Span) :=
  (m.fault? b k).map fun fault => (.meaning fault, k.span)

theorem complaint?_resolveLayer (m : Keymap) (b : Backend) (name : String) (span : Span) :
    complaint? (m.resolveLayer name span) = m.offence? b ⟨.layer name, span⟩ := by
  have hindex : (m.layerIndex? name).isSome ↔ name ∈ m.layerNames := List.isSome_idxOf?
  simp only [offence?, fault?, ← hindex, resolveLayer]
  cases m.layerIndex? name <;> rfl

theorem complaint?_resolveChar (m : Keymap) (b : Backend) (c : Char) (quote : Option Char)
    (span : Span) : complaint? (resolveChar c span) = m.offence? b ⟨.char c quote, span⟩ := by
  simp only [offence?, fault?, ← CharKey.isSome_find?, resolveChar]
  cases CharKey.find? c <;> rfl

theorem complaint?_resolveName (m : Keymap) (b : Backend) (name : String) (span : Span) :
    complaint? (m.resolveName b name span) = m.offence? b ⟨.named name, span⟩ := by
  simp only [offence?, fault?, ← NamedKey.isSome_find?, resolveName]
  cases m.customKeys.get? b name with
  | some output => rfl
  | none => cases NamedKey.find? name <;> rfl

/-- Two backends with custom keys of the same names find the same faults. -/
theorem fault?_congr {m : Keymap} {b b' : Backend}
    (h : ∀ name, (m.customKeys.get? b name).isSome ↔ (m.customKeys.get? b' name).isSome) :
    m.fault? b = m.fault? b' := by
  funext k
  unfold fault?
  cases k.meaning with
  | layer name => rfl
  | char c quote => rfl
  | named name => simp only [h name]

end Keymap

/-! ## 3. The firmware -/

namespace Firmware

theorem Binder.bindPlain_checks (b : Binder) (k : PlainKey) :
    Checks (b.keymap.offence? .firmware) [k] (b.bindPlain k) := by
  obtain ⟨meaning, span⟩ := k
  cases meaning with
  | layer name => exact (Checks.one (b.keymap.complaint?_resolveLayer _ name span)).map _
  | char c quote => exact (Checks.one (b.keymap.complaint?_resolveChar _ c quote span)).map _
  | named name => exact (Checks.one (b.keymap.complaint?_resolveName _ name span)).map _

theorem Binder.bind_checks (b : Binder) (k : Key) :
    Checks (b.keymap.offence? .firmware) k.plainKeys (b.bind k) := by
  obtain ⟨tap, hold, span⟩ := k
  apply (b.bindPlain_checks tap).bind
  intro action _
  cases hold with
  | none => exact .ok _
  | some h => exact (b.bindPlain_checks h.key).map _

namespace Table

open Allocator (Serves room)

variable {layout : Layout} {b : Binder} {a : Allocator ChordPair} {done : List ChordPair}

theorem placeChords_serves {w h : Nat} (hw : 0 < w) (hw' : w ≤ maxCoordinate + 1) (l : Layer)
    (ha : Serves w h done.eraseDups a) (hroom : (done ++ l.pairs).eraseDups.length ≤ room w h) :
    ∃ state, placeChords a l.chords = .ok state ∧
      Serves w h (done ++ l.pairs).eraseDups state.2 := by
  unfold placeChords
  apply foldlM_total (P := fun seen state =>
    Serves w h (done ++ seen.map PlacedChord.pair).eraseDups (Prod.snd state))
    ?_ l.chords [] (List.nil_append _)
  · rw [List.map_nil, List.append_nil]
    exact ha
  rintro seen c rest ⟨placed, a⟩ hall ha
  -- The pairs up to this one are some of all pairs, so there is room for them.
  have hpairs : done ++ l.pairs =
      done ++ seen.map PlacedChord.pair ++ [c.pair] ++ rest.map PlacedChord.pair := by
    simp [Layer.pairs, ← hall]
  have hfirst := Allocator.eraseDups_prefix (done ++ seen.map PlacedChord.pair ++ [c.pair])
    (rest.map PlacedChord.pair)
  rw [← hpairs, Allocator.eraseDups_concat] at hfirst
  obtain ⟨pos, a', halloc, ha'⟩ := ha.allocate hw hw' c.pair c.chord.span
    (Nat.le_trans hfirst.length_le hroom)
  refine ⟨(placed.insert pos c.chord.key, a'), ?_, ?_⟩
  · show (a.allocate c.pair c.chord.span >>= fun found => pure _) = _
    rw [halloc]
    rfl
  · rw [← Allocator.eraseDups_concat, List.append_assoc] at ha'
    rw [List.map_append]
    exact ha'

theorem AtSlots.map_snd {slots : OrderedMap ChordPair MatrixPos} {chords : List PlacedChord}
    {placed : OrderedMap MatrixPos Key} (hat : AtSlots slots chords placed) :
    placed.map (·.2) = chords.map (·.chord.key) := by
  have h := congrArg (List.map Prod.snd) hat
  rw [List.map_map, List.map_map] at h
  exact h.symm

theorem bindAt_checks (b : Binder) (entries : List (MatrixPos × Key)) :
    Checks (b.keymap.offence? .firmware) ((entries.map (·.2)).flatMap Key.plainKeys)
      (entries.mapM (bindAt b)) := by
  rw [List.flatMap_map]
  apply Checks.mapM
  intro e
  exact (b.bind_checks e.2).map _

/-- Chords are collected first and bound last, and all of them get a slot. -/
theorem bindLayer_checks (hw : 0 < layout.width) (hlayout : layout.WellFormed) {l : Layer}
    (hl : l.PlacedOn layout) (ha : Serves layout.width layout.height done.eraseDups a)
    (hroom : (done ++ l.pairs).eraseDups.length ≤ room layout.width layout.height) :
    Checks (b.keymap.offence? .firmware) (l.bindings.flatMap Key.plainKeys) (bindLayer b a l) ∧
      ∀ bound a', bindLayer b a l = .ok (bound, a') →
        Serves layout.width layout.height (done ++ l.pairs).eraseDups a' := by
  obtain ⟨⟨chordKeys, a'⟩, hplace, ha'⟩ := placeChords_serves hw hlayout.width_le l ha hroom
  obtain ⟨ha₁, -, hat⟩ := placeChords_eq_ok hw hplace ha.counted (hl.pairs_nodup hlayout)
  obtain ⟨hkeys, hchords⟩ := placed_eq hw hlayout hl ha₁ hat
  have hlayer : bindLayer b a l = do
      let keys ← (l.keys.map fun k => (k.matrix, k.key)).mapM (bindAt b)
      let chords ← chordKeys.mapM (bindAt b)
      return (keys ++ chords, a') := by
    rw [bindLayer, hplace, ok_bind]
    simp only [hkeys, hchords]
  rw [hlayer]
  constructor
  · have hbound := bindAt_checks b (l.keys.map fun k => (k.matrix, k.key))
    rw [List.map_map] at hbound
    rw [Layer.bindings, List.flatMap_append, ← hat.map_snd]
    apply hbound.bind
    intro keys _
    exact (bindAt_checks b chordKeys).map _
  · intro bound a'' h
    obtain ⟨keys, -, h⟩ := bind_eq_ok_iff.mp h
    obtain ⟨chords, -, h⟩ := bind_eq_ok_iff.mp h
    rw [← (Prod.mk.inj (pure_eq_ok_iff.mp h)).2]
    exact ha'

theorem bindLayers_checks (hw : 0 < layout.width) (hlayout : layout.WellFormed)
    (layers : List Layer) (hlayers : ∀ l ∈ layers, l.PlacedOn layout)
    (ha : Serves layout.width layout.height done.eraseDups a)
    (hroom : (done ++ layers.flatMap Layer.pairs).eraseDups.length ≤
      room layout.width layout.height) :
    Checks (b.keymap.offence? .firmware)
      (layers.flatMap fun l => l.bindings.flatMap Key.plainKeys) (bindLayers b a layers) := by
  -- The pairs that were seen before take part: they have slots already.
  induction layers generalizing a done with
  | nil => exact .ok _
  | cons l layers ih =>
    rw [List.flatMap_cons, ← List.append_assoc] at hroom
    have hfirst := Allocator.eraseDups_prefix (done ++ l.pairs) (layers.flatMap Layer.pairs)
    obtain ⟨hbind, hserves⟩ := bindLayer_checks (b := b) hw hlayout
      (hlayers l List.mem_cons_self) ha (Nat.le_trans hfirst.length_le hroom)
    rw [bindLayers, List.flatMap_cons]
    apply hbind.bind
    rintro ⟨bound, a'⟩ hok
    have hplaced : ∀ l' ∈ layers, l'.PlacedOn layout :=
      fun l' hl' => hlayers l' (List.mem_cons_of_mem _ hl')
    exact (ih hplaced (hserves _ _ hok) hroom).map _

end Table

end Firmware

/-! ## 4. The diagram -/

namespace Diagram

theorem plainLabel_checks (m : Keymap) (k : PlainKey) :
    Checks (m.offence? .diagram) [k] (plainLabel m k) := by
  obtain ⟨meaning, span⟩ := k
  cases meaning with
  | layer name => exact (Checks.one (m.complaint?_resolveLayer _ name span)).map _
  | char c quote => exact (Checks.one (m.complaint?_resolveChar _ c quote span)).map _
  | named name =>
    apply (Checks.one (m.complaint?_resolveName _ name span)).bind
    intro meaning _
    cases meaning <;> exact .ok _

theorem keyLabel_checks (m : Keymap) (k : Key) :
    Checks (m.offence? .diagram) k.plainKeys (keyLabel m k) := by
  obtain ⟨tap, hold, span⟩ := k
  apply (plainLabel_checks m tap).bind
  intro label _
  cases hold with
  | none => exact .ok _
  | some h => exact (plainLabel_checks m h.key).map _

theorem drawLayers_checks (m : Keymap) (layers : List Layer) (combos : List Combo) :
    Checks (m.offence? .diagram) (layers.flatMap fun l => l.bindings.flatMap Key.plainKeys)
      (drawLayers m combos layers) := by
  induction layers generalizing combos with
  | nil => exact .ok _
  | cons l layers ih =>
    rw [drawLayers, List.flatMap_cons, Layer.bindings, List.flatMap_append, List.flatMap_map,
      List.flatMap_map, List.append_assoc]
    have hkeys : Checks (m.offence? .diagram) (l.keys.flatMap fun k => k.key.plainKeys)
        (labelLayer m l) := by
      unfold labelLayer
      apply Checks.map
      apply Checks.mapM
      intro k
      exact (keyLabel_checks m k.key).map _
    have hchords : Checks (m.offence? .diagram) (l.chords.flatMap fun c => c.chord.key.plainKeys)
        (addChords m l combos) := by
      apply Checks.foldlM
      intro combos c
      exact ((keyLabel_checks m c.chord.key).map _).map _
    apply hkeys.bind
    intro labels _
    apply hchords.bind
    intro combos' _
    exact (ih combos').map _

end Diagram

/-! ## 5. Both -/

theorem OptionTable.number_total {t : OptionTable Backend} {b : Backend} {name : String}
    (h : ∀ v, t.get? b name = some v → ∃ n, readInt64? v.value = some n ∧ 0 ≤ n)
    (default : Int) : ∃ n, t.number b name default = .ok n := by
  unfold number
  cases hv : t.get? b name with
  | none => exact ⟨default, rfl⟩
  | some v =>
    obtain ⟨n, hn, hpos⟩ := h v hv
    refine ⟨n, ?_⟩
    simp only [hn]
    rw [if_neg (by omega)]

namespace Keymap

def pairs (m : Keymap) : List Firmware.ChordPair :=
  m.layers.flatMap Layer.pairs

/-- The layers bind the keys of the description, in the order they are written there. -/
theorem WellFormed.plainKeys_eq {m : Keymap} (hm : m.WellFormed) :
    m.description.plainKeys = m.layers.flatMap fun l => l.bindings.flatMap Key.plainKeys := by
  have hkeys := map_of_mapM hm.layers fun _ _ hresolve => congrArg (List.flatMap Key.plainKeys)
    (Layer.bindings_of_resolve hresolve)
  exact congrArg List.flatten hkeys

theorem WellFormed.firmware_checks {m : Keymap} (hm : m.WellFormed)
    (hnumber : ∀ name ∈ ["hold_tap_timeout", "hold_tap_interval"], ∀ v,
      m.options.get? .firmware name = some v → ∃ n, readInt64? v.value = some n ∧ 0 ≤ n)
    (hroom : m.pairs.eraseDups.length ≤ m.layout.width * (256 - m.layout.height)) :
    Checks (m.offence? .firmware) m.description.plainKeys (Firmware.Table.build m) := by
  obtain ⟨timeout, htimeout⟩ := OptionTable.number_total
    (hnumber "hold_tap_timeout" (by simp)) Firmware.Binder.defaultTimeout
  obtain ⟨interval, hinterval⟩ := OptionTable.number_total
    (hnumber "hold_tap_interval" (by simp)) Firmware.Binder.defaultInterval
  have hbinder : Firmware.Binder.ofKeymap m = .ok ⟨m, timeout, interval⟩ := by
    rw [Firmware.Binder.ofKeymap, htimeout, hinterval]
    rfl
  have hempty : Firmware.Allocator.Serves m.layout.width m.layout.height
      ([] : List Firmware.ChordPair).eraseDups _ := Firmware.Allocator.serves_empty _ _
  have hlayers := Firmware.Table.bindLayers_checks (b := ⟨m, timeout, interval⟩) hm.width_pos
    hm.layout m.layers (fun l hl => hm.placedOn hl) hempty hroom
  rw [Firmware.Table.build, hbinder, ok_bind, hm.plainKeys_eq]
  exact hlayers.map _

theorem WellFormed.diagram_checks {m : Keymap} (hm : m.WellFormed)
    (hkeyboard : (m.options.get? .diagram "keyboard").isSome) :
    Checks (m.offence? .diagram) m.description.plainKeys (Diagram.build m) := by
  obtain ⟨v, hv⟩ := Option.isSome_iff_exists.mp hkeyboard
  rw [Diagram.build, OptionTable.require, OptionTable.lookup, hv, hm.plainKeys_eq]
  exact (Diagram.drawLayers_checks m m.layers []).map _

/-- The first plain key of a description that is wrong for a backend, and what is wrong with it. -/
structure FirstFault (m : Keymap) (b : Backend) (k : PlainKey) (fault : SemanticFault) : Prop where
  fault : m.fault? b k = some fault
  first : ∃ before after, m.description.plainKeys = before ++ k :: after ∧
    ∀ k' ∈ before, m.fault? b k' = none

theorem firstFault_of_checks {α : Type} {m : Keymap} {b : Backend} {x : Except Diagnostic α}
    (hx : Checks (m.offence? b) m.description.plainKeys x) {d : Diagnostic} (hd : x = .error d) :
    ∃ k fault, FirstFault m b k fault ∧ d.cause = .meaning fault ∧ d.span = k.span := by
  obtain ⟨before, k, after, hkeys, hk, hbefore⟩ := hx.first hd
  obtain ⟨fault, hfault, hk⟩ := Option.map_eq_some_iff.mp hk
  obtain ⟨hcause, hspan⟩ := Prod.mk.inj hk
  refine ⟨k, fault, ⟨hfault, before, after, hkeys, ?_⟩, hcause.symm, hspan.symm⟩
  intro k' hk'
  exact Option.map_eq_none_iff.mp (hbefore k' hk')

/-- When both backends have the same custom keys, and nothing but keys can be wrong, one of them
fails exactly when the other one does, and both are about the first key that is wrong. -/
theorem builds_agree {source : Text} {defaults : List DefaultOption} {m : Keymap}
    (hread : Keymap.read source defaults = .ok m)
    (hcustom : ∀ name,
      (m.customKeys.get? .firmware name).isSome ↔ (m.customKeys.get? .diagram name).isSome)
    (hkeyboard : (m.options.get? .diagram "keyboard").isSome)
    (hnumber : ∀ name ∈ ["hold_tap_timeout", "hold_tap_interval"], ∀ v,
      m.options.get? .firmware name = some v → ∃ n, readInt64? v.value = some n ∧ 0 ≤ n)
    (hroom : m.pairs.eraseDups.length ≤ m.layout.width * (256 - m.layout.height)) :
    ((∃ d, Firmware.Table.build m = .error d) ↔ ∃ d, Diagram.build m = .error d) ∧
      ((∃ d, Firmware.Table.build m = .error d) ↔
        ∃ k ∈ m.description.plainKeys, (m.fault? .firmware k).isSome) ∧
      ∀ d d', Firmware.Table.build m = .error d → Diagram.build m = .error d' →
        d.cause = d'.cause ∧ d.span = d'.span ∧
          ∃ k fault, FirstFault m .firmware k fault ∧ FirstFault m .diagram k fault ∧
            d.cause = .meaning fault ∧ d.span = k.span := by
  have hm := wellFormed_of_read hread
  have hfirmware := hm.firmware_checks hnumber hroom
  have hdiagram := hm.diagram_checks hkeyboard
  have hfault : m.fault? .firmware = m.fault? .diagram := fault?_congr hcustom
  have hoffence : m.offence? .firmware = m.offence? .diagram := by
    funext k
    rw [offence?, offence?, hfault]
  refine ⟨?_, ?_, ?_⟩
  · rw [hfirmware.fails_iff, hdiagram.fails_iff, hoffence]
  · rw [hfirmware.fails_iff]
    simp only [offence?, Option.isSome_map]
  · intro d d' hd hd'
    -- Both complaints are the first one of the same search.
    have hsame : complaint? (Firmware.Table.build m) = complaint? (Diagram.build m) := by
      rw [hfirmware, hdiagram, hoffence]
    rw [hd, hd'] at hsame
    obtain ⟨hcause, hspan⟩ := Prod.mk.inj (Option.some.inj hsame)
    obtain ⟨k, fault, hfirst, hmeaning, hplace⟩ := firstFault_of_checks hfirmware hd
    refine ⟨hcause, hspan, k, fault, hfirst, ?_, hmeaning, hplace⟩
    exact ⟨hfault ▸ hfirst.fault, hfault ▸ hfirst.first⟩

/-- A description with a chord whose held key is wrong, and a wrong key behind it. -/
def wrongChordAndKey : Text :=
  Text.ofString ("options diagram \x7b keyboard: \"k\"; \x7d layout \x7b 2k; \x7d" ++
    "key z \x7b out firmware: \"x\"; out diagram: \"y\"; \x7d" ++
    "layer l \x7b z >'2'@[m]< q; \x7d")

/-- Both are about the key, since the keys of a layer come before its chords. -/
theorem builds_agree_wrongChordAndKey : ∃ m d d', Keymap.read wrongChordAndKey [] = .ok m ∧
    Firmware.Table.build m = .error d ∧ Diagram.build m = .error d' ∧
    d.cause = .meaning .unknownNamedKey ∧ d.cause = d'.cause ∧ d.span = d'.span := by
  have hrun : ((Keymap.read wrongChordAndKey []).toOption.any fun m =>
      decide (m.customKeys.outputs.keys = [(.firmware, "z"), (.diagram, "z")]) &&
        (m.options.get? .diagram "keyboard").isSome &&
        (m.options.get? .firmware "hold_tap_timeout").isNone &&
        (m.options.get? .firmware "hold_tap_interval").isNone &&
        decide (m.pairs.eraseDups.length ≤ m.layout.width * (256 - m.layout.height)) &&
        decide ((complaint? (Firmware.Table.build m)).map (·.1) =
          some (.meaning .unknownNamedKey))) = true := by
    decide +kernel
  obtain ⟨m, hm, hrun⟩ := (Option.any_eq_true _ _).mp hrun
  simp only [Bool.and_eq_true, decide_eq_true_eq, Option.isNone_iff_eq_none] at hrun
  obtain ⟨⟨⟨⟨⟨hkeys, hkeyboard⟩, htimeout⟩, hinterval⟩, hroom⟩, hcause⟩ := hrun
  -- A name has a custom key on a backend when it is one of the two that were declared.
  have hcustom : ∀ b name, (m.customKeys.get? b name).isSome ↔
      (b, name) ∈ [(Backend.firmware, "z"), (Backend.diagram, "z")] := by
    intro b name
    rw [← hkeys, ← not_iff_not, Option.not_isSome_iff_eq_none]
    exact OrderedMap.get?_eq_none_iff
  obtain ⟨hboth, -, hagree⟩ := builds_agree (toOption_eq_some_iff.mp hm)
    (fun name => by simp [hcustom]) hkeyboard (by simp [htimeout, hinterval]) hroom
  cases hd : Firmware.Table.build m with
  | ok t =>
    rw [hd] at hcause
    cases hcause
  | error d =>
    rw [hd] at hcause
    obtain ⟨d', hd'⟩ := hboth.mp ⟨d, hd⟩
    obtain ⟨hsame, hspan, -⟩ := hagree d d' hd hd'
    exact ⟨m, d, d', toOption_eq_some_iff.mp hm, hd, hd', Option.some.inj hcause, hsame, hspan⟩

end Keymap

end Keyplan
