import Keyplan.Proofs.Keymap.Agreement
import Mathlib.Data.List.Nodup

/-!
# Chords — the slots of the firmware and the combinations of the diagram

Both backends go through the chords of all layers. The firmware keeps one slot for a pair of
switches; the diagram keeps one combination for a pair and a label, with the layers that have it.
Both are compared with the list of the pairs and layers as the chords are met. A layer has at most
one chord on a pair and no two layers have one name, so nothing in that list is repeated.
-/

namespace Keyplan

open Outcome
open Firmware (ChordPair)
open Firmware.Allocator (ask eraseDups_concat)

/-- The pairs of a layer's chords, each with the name of the layer. -/
def Layer.occurrences (l : Layer) : List (ChordPair × String) :=
  l.pairs.map fun p => (p, l.name)

/-! ## 1. Slots -/

namespace Firmware

theorem Allocator.keys_allocate {a a' : Allocator ChordPair} {k : ChordPair} {span : Span}
    {pos : MatrixPos} (h : a.allocate k span = .ok (pos, a')) :
    OrderedMap.keys a'.slots = ask (OrderedMap.keys a.slots) k := by
  unfold Allocator.allocate at h
  cases hknown : a.slots.get? k with
  | some known =>
    rw [hknown] at h
    obtain ⟨-, rfl⟩ := Prod.mk.inj (Except.ok.inj h)
    have hmem : k ∈ OrderedMap.keys a.slots :=
      OrderedMap.mem_keys_of_mem (OrderedMap.mem_of_get? hknown)
    rw [ask, if_pos hmem]
  | none =>
    rw [hknown] at h
    obtain ⟨pos', -, h⟩ := bind_eq_ok_iff.mp h
    obtain ⟨-, rfl⟩ := Prod.mk.inj (pure_eq_ok_iff.mp h)
    rw [ask, if_neg (OrderedMap.get?_eq_none_iff.mp hknown)]
    show (a.slots ++ [(k, pos')]).map Prod.fst = _
    rw [List.map_append]
    rfl

namespace Table

variable {a a' : Allocator ChordPair} {done : List ChordPair}

theorem keys_placeChords {chords : List PlacedChord} {placed : OrderedMap MatrixPos Key}
    (h : placeChords a chords = .ok (placed, a')) (ha : OrderedMap.keys a.slots = done.eraseDups) :
    OrderedMap.keys a'.slots = (done ++ chords.map PlacedChord.pair).eraseDups := by
  apply foldlM_of_ok (P := fun seen state => OrderedMap.keys (Prod.snd state).slots =
    (done ++ seen.map PlacedChord.pair).eraseDups) ?_ chords [] (List.nil_append _) ?_ h
  · rintro seen c rest ⟨placed, a⟩ ⟨placed', a'⟩ - ha hstep
    obtain ⟨⟨pos, a₁⟩, halloc, hstep⟩ := bind_eq_ok_iff.mp hstep
    obtain ⟨-, rfl⟩ := Prod.mk.inj (pure_eq_ok_iff.mp hstep)
    show OrderedMap.keys a₁.slots = _
    rw [Allocator.keys_allocate halloc, show OrderedMap.keys a.slots = _ from ha,
      ← eraseDups_concat, List.map_append, ← List.append_assoc]
    rfl
  · rwa [List.map_nil, List.append_nil]

theorem keys_bindLayers {b : Binder} (layers : List Layer)
    {bounds : List (OrderedMap MatrixPos Action)}
    (h : bindLayers b a layers = .ok (bounds, a')) (ha : OrderedMap.keys a.slots = done.eraseDups) :
    OrderedMap.keys a'.slots = (done ++ layers.flatMap Layer.pairs).eraseDups := by
  induction layers generalizing a done bounds with
  | nil =>
    obtain ⟨-, rfl⟩ := Prod.mk.inj (Except.ok.inj h)
    rwa [List.flatMap_nil, List.append_nil]
  | cons l layers ih =>
    rw [bindLayers] at h
    obtain ⟨⟨bound, a₁⟩, hlayer, h⟩ := bind_eq_ok_iff.mp h
    obtain ⟨⟨others, a₂⟩, hrest, h⟩ := bind_eq_ok_iff.mp h
    obtain ⟨-, rfl⟩ := Prod.mk.inj (pure_eq_ok_iff.mp h)
    -- Only the first step of a layer hands out slots.
    unfold bindLayer at hlayer
    obtain ⟨⟨chordKeys, a₃⟩, hplace, hlayer⟩ := bind_eq_ok_iff.mp hlayer
    obtain ⟨keys, -, hlayer⟩ := bind_eq_ok_iff.mp hlayer
    obtain ⟨chords, -, hlayer⟩ := bind_eq_ok_iff.mp hlayer
    obtain ⟨-, rfl⟩ := Prod.mk.inj (pure_eq_ok_iff.mp hlayer)
    rw [List.flatMap_cons, ← List.append_assoc]
    exact ih hrest (keys_placeChords hplace ha)

/-- The pairs of switches with a slot are those of the chords of all layers, as they are met. -/
theorem keys_chords_of_build {m : Keymap} {t : Table} (h : build m = .ok t) :
    t.chords.keys = m.pairs.eraseDups := by
  obtain ⟨b, bounds, a, -, hbind, rfl⟩ := build_eq_ok h
  have hnone : OrderedMap.keys ([] : OrderedMap ChordPair MatrixPos) =
      ([] : List ChordPair).eraseDups := rfl
  exact keys_bindLayers m.layers hbind hnone

end Table

end Firmware

/-! ## 2. Combinations -/

namespace Diagram

def Combo.pair (c : Combo) : ChordPair :=
  ⟨c.left, c.right⟩

/-- The layers of the combinations of a pair, one combination after the other. -/
def layersOn (combos : List Combo) (p : ChordPair) : List String :=
  (combos.filter fun c => decide (c.pair = p)).flatMap (·.layers)

theorem layersOn_cons (c : Combo) (combos : List Combo) (p : ChordPair) :
    layersOn (c :: combos) p = (if c.pair = p then c.layers else []) ++ layersOn combos p := by
  unfold layersOn
  by_cases h : c.pair = p
  · simp [h]
  · simp [h]

theorem Combo.pair_addLayer (c : Combo) (name : String) : (c.addLayer name).pair = c.pair := by
  unfold addLayer
  split <;> rfl

theorem Combo.pair_eq_of_matches {c d : Combo} (h : d.matches c) : d.pair = c.pair := by
  simp only [Combo.matches, Bool.and_eq_true, beq_iff_eq] at h
  rw [Combo.pair, Combo.pair, h.1.1, h.1.2]

/-- A pair is appended the first time a combination of it is added, and at most once for every
label. -/
theorem eraseDups_pairs_addCombo (name : String) (c : Combo) (combos : List Combo) :
    ((addCombo name c combos).map Combo.pair).eraseDups =
      ask (combos.map Combo.pair).eraseDups c.pair := by
  have hpairs : (addCombo name c combos).map Combo.pair = combos.map Combo.pair ∧
        c.pair ∈ combos.map Combo.pair ∨
      (addCombo name c combos).map Combo.pair = combos.map Combo.pair ++ [c.pair] := by
    induction combos with
    | nil => exact .inr rfl
    | cons d rest ih =>
      rw [addCombo]
      by_cases h : d.matches c
      · left
        rw [if_pos h, List.map_cons, List.map_cons, Combo.pair_addLayer,
          Combo.pair_eq_of_matches h]
        exact ⟨rfl, List.mem_cons_self⟩
      · rw [if_neg h, List.map_cons, List.map_cons]
        rcases ih with ⟨hsame, hmem⟩ | hmore
        · exact .inl ⟨by rw [hsame], List.mem_cons_of_mem _ hmem⟩
        · exact .inr (by rw [hmore]; rfl)
  rcases hpairs with ⟨hsame, hmem⟩ | hmore
  · rw [hsame, ask, if_pos (List.mem_eraseDups.mpr hmem)]
  · rw [hmore, eraseDups_concat]

/-- Adding a combination enters its layer once, behind the layers of its pair. -/
theorem count_layersOn_addCombo {name : String} {c : Combo} (hc : c.layers = [name])
    {combos : List Combo} (hfresh : name ∉ layersOn combos c.pair) (p : ChordPair) (s : String) :
    (layersOn (addCombo name c combos) p).count s =
      (layersOn combos p).count s + [(c.pair, name)].count (p, s) := by
  have hone : [(c.pair, name)].count (p, s) = if c.pair = p then [name].count s else 0 := by
    by_cases hp : c.pair = p
    · simp [List.count_singleton, hp]
    · simp [hp]
  induction combos with
  | nil =>
    rw [addCombo, layersOn_cons, hc, hone]
    by_cases hp : c.pair = p
    · simp [hp, layersOn]
    · simp [hp, layersOn]
  | cons d rest ih =>
    rw [layersOn_cons, List.mem_append, not_or] at hfresh
    rw [addCombo]
    by_cases h : d.matches c
    -- The layer is not among those of the combination, so it is not the last of them.
    · have hpair := Combo.pair_eq_of_matches h
      rw [if_pos hpair] at hfresh
      have hlast : d.layers.getLast? ≠ some name :=
        fun e => hfresh.1 (List.mem_of_getLast? e)
      rw [if_pos h, layersOn_cons, layersOn_cons, Combo.pair_addLayer, Combo.addLayer,
        if_neg hlast, hone, hpair]
      by_cases hp : c.pair = p
      · simp only [if_pos hp, List.count_append]
        omega
      · simp only [if_neg hp, List.nil_append, Nat.add_zero]
    · rw [if_neg h, layersOn_cons, layersOn_cons, List.count_append, List.count_append,
        ih hfresh.2]
      omega

/-- Combinations that were collected from chords with the pairs and layers `done`. -/
structure Collects (done : List (ChordPair × String)) (combos : List Combo) : Prop where
  pairs : (combos.map Combo.pair).eraseDups = (done.map Prod.fst).eraseDups
  count : ∀ p s, (layersOn combos p).count s = done.count (p, s)

theorem collects_nil : Collects [] [] :=
  ⟨rfl, fun _ _ => rfl⟩

variable {done : List (ChordPair × String)} {combos combos' : List Combo}

theorem Collects.addCombo (h : Collects done combos) {name : String} {c : Combo}
    (hc : c.layers = [name]) (hfresh : (c.pair, name) ∉ done) :
    Collects (done ++ [(c.pair, name)]) (addCombo name c combos) := by
  constructor
  · rw [eraseDups_pairs_addCombo, h.pairs, ← eraseDups_concat, List.map_append]
    rfl
  · intro p s
    have hnone : name ∉ layersOn combos c.pair := by
      apply List.count_eq_zero.mp
      rw [h.count]
      exact List.count_eq_zero.mpr hfresh
    rw [count_layersOn_addCombo hc hnone, h.count, List.count_append]

/-- What holds of the combinations behind the chords of a layer. -/
theorem addChords_of_ok {m : Keymap} {l : Layer} {P : List PlacedChord → List Combo → Prop}
    (hstep : ∀ seen c rest combos combo, seen ++ c :: rest = l.chords → P seen combos →
      chordCombo m l.name c = .ok combo → P (seen ++ [c]) (addCombo l.name combo combos))
    (hnone : P [] combos) (hadd : addChords m l combos = .ok combos') : P l.chords combos' := by
  apply foldlM_of_ok ?_ l.chords [] (List.nil_append _) hnone hadd
  intro seen c rest combos combos' hall hseen h
  obtain ⟨combo, hcombo, h⟩ := bind_eq_ok_iff.mp h
  obtain rfl := pure_eq_ok_iff.mp h
  exact hstep seen c rest combos combo hall hseen hcombo

theorem drawLayers_of_ok {m : Keymap} {P : List Layer → List Combo → Prop} {all : List Layer}
    (hstep : ∀ seen l rest combos combos', seen ++ l :: rest = all → P seen combos →
      addChords m l combos = .ok combos' → P (seen ++ [l]) combos')
    (layers seen : List Layer) (hall : seen ++ layers = all) {labels : List LayerLabels}
    (hseen : P seen combos) (hdraw : drawLayers m combos layers = .ok (labels, combos')) :
    P all combos' ∧ layers.mapM (labelLayer m) = .ok labels := by
  induction layers generalizing seen combos labels with
  | nil =>
    obtain ⟨rfl, rfl⟩ := Prod.mk.inj (Except.ok.inj hdraw)
    rw [List.append_nil] at hall
    exact ⟨hall ▸ hseen, rfl⟩
  | cons l layers ih =>
    rw [drawLayers] at hdraw
    obtain ⟨here, hhere, hdraw⟩ := bind_eq_ok_iff.mp hdraw
    obtain ⟨combos₁, hadd, hdraw⟩ := bind_eq_ok_iff.mp hdraw
    obtain ⟨⟨others, combos₂⟩, hrest, hdraw⟩ := bind_eq_ok_iff.mp hdraw
    obtain ⟨rfl, rfl⟩ := Prod.mk.inj (pure_eq_ok_iff.mp hdraw)
    have hhereP := hstep seen l layers combos combos₁ hall hseen hadd
    rw [List.append_cons] at hall
    obtain ⟨hall', hothers⟩ := ih (seen ++ [l]) hall hhereP hrest
    refine ⟨hall', ?_⟩
    rw [List.mapM_cons, hhere, ok_bind, hothers]
    rfl

theorem chordCombo_eq_ok {m : Keymap} {name : String} {c : PlacedChord} {combo : Combo}
    (h : chordCombo m name c = .ok combo) : ∃ label, keyLabel m c.chord.key = .ok label ∧
      combo = {
        firstKey := m.layout.keyIndex c.leftLayout.col c.leftLayout.row
        left := c.left
        right := c.right
        label := label
        layers := [name] } := by
  obtain ⟨label, hlabel, h⟩ := bind_eq_ok_iff.mp h
  exact ⟨label, hlabel, (pure_eq_ok_iff.mp h).symm⟩

theorem Collects.addChords {m : Keymap} {l : Layer} (h : Collects done combos)
    (hadd : addChords m l combos = .ok combos') (hnodup : (done ++ l.occurrences).Nodup) :
    Collects (done ++ l.occurrences) combos' := by
  have hoccurrences : l.occurrences = l.chords.map fun c => (c.pair, l.name) := by
    rw [Layer.occurrences, Layer.pairs, List.map_map]
    rfl
  rw [hoccurrences] at hnodup ⊢
  apply addChords_of_ok (P := fun seen combos =>
    Collects (done ++ seen.map fun c => (c.pair, l.name)) combos) ?_ ?_ hadd
  · intro seen c rest combos combo hall h hcombo
    obtain ⟨label, -, heq⟩ := chordCombo_eq_ok hcombo
    have hpair : combo.pair = c.pair := by rw [heq]; rfl
    have hlayers : combo.layers = [l.name] := by rw [heq]
    rw [← hall, List.map_append, List.map_cons, ← List.append_assoc] at hnodup
    have hfresh : (c.pair, l.name) ∉ done ++ seen.map fun c => (c.pair, l.name) :=
      fun hmem => (List.nodup_append.mp hnodup).2.2 _ hmem _ List.mem_cons_self rfl
    rw [← hpair] at hfresh
    rw [List.map_append, ← List.append_assoc, List.map_singleton, ← hpair]
    exact h.addCombo hlayers hfresh
  · rwa [List.map_nil, List.append_nil]

theorem Collects.drawLayers {m : Keymap} (layers : List Layer) {labels : List LayerLabels}
    (h : Collects done combos) (hdraw : drawLayers m combos layers = .ok (labels, combos'))
    (hnodup : (done ++ layers.flatMap Layer.occurrences).Nodup) :
    Collects (done ++ layers.flatMap Layer.occurrences) combos' := by
  apply (drawLayers_of_ok (P := fun seen combos =>
    Collects (done ++ seen.flatMap Layer.occurrences) combos) ?_ layers [] (List.nil_append _) ?_
    hdraw).1
  · intro seen l rest combos combos' hall h hadd
    rw [← hall, List.flatMap_append, List.flatMap_cons, ← List.append_assoc,
      ← List.append_assoc] at hnodup
    rw [List.flatMap_append, List.flatMap_singleton, ← List.append_assoc]
    exact h.addChords hadd (List.nodup_append.mp hnodup).1
  · rwa [List.flatMap_nil, List.append_nil]

end Diagram

/-! ## 3. Both -/

namespace Keymap

/-- The pairs and layers of all chords. -/
def occurrences (m : Keymap) : List (ChordPair × String) :=
  m.layers.flatMap Layer.occurrences

theorem map_fst_occurrences (m : Keymap) : m.occurrences.map Prod.fst = m.pairs := by
  rw [occurrences, List.map_flatMap]
  apply List.flatMap_congr
  intro l _
  rw [Layer.occurrences, List.map_map]
  exact List.map_id _

namespace WellFormed

variable {m : Keymap}

theorem nodup_occurrences (hm : m.WellFormed) : m.occurrences.Nodup := by
  apply List.nodup_flatMap.mpr
  constructor
  · intro l hl
    have hpairs : l.pairs.Nodup :=
      (List.pairwise_map.mp ((hm.placedOn hl).pairs_nodup hm.layout)).map _ fun c c' hne e =>
        hne (by rw [(ChordPair.mk.inj e).1, (ChordPair.mk.inj e).2])
    exact hpairs.map fun p q e => (Prod.mk.inj e).1
  · -- Layers with different names have nothing in common.
    apply (List.pairwise_map.mp hm.layerNames_nodup).imp
    intro l l' hne x hx hx'
    obtain ⟨p, -, rfl⟩ := List.mem_map.mp hx
    obtain ⟨q, -, e⟩ := List.mem_map.mp hx'
    exact hne (Prod.mk.inj e).2.symm

/-- A layer is met on a pair once if it has a chord there, and else not at all. -/
theorem count_occurrences (hm : m.WellFormed) {l : Layer} (hl : l ∈ m.layers) (p : ChordPair) :
    m.occurrences.count (p, l.name) = if p ∈ l.pairs then 1 else 0 := by
  have hmem : (p, l.name) ∈ m.occurrences ↔ p ∈ l.pairs := by
    constructor
    · intro h
      obtain ⟨l', hl', h⟩ := List.mem_flatMap.mp h
      obtain ⟨q, hq, e⟩ := List.mem_map.mp h
      obtain ⟨rfl, hname⟩ := Prod.mk.inj e
      have hsame : l' = l := List.inj_on_of_nodup_map hm.layerNames_nodup hl' hl hname
      rwa [hsame] at hq
    · intro h
      exact List.mem_flatMap.mpr ⟨l, hl, List.mem_map.mpr ⟨p, h, rfl⟩⟩
  rw [hm.nodup_occurrences.count]
  simp only [hmem]

end WellFormed

/-- The chord table of the firmware and the combinations of the diagram are about the same chords.
The pairs of switches are the same and in the same order, each where it is first met. A layer
stands once among the layers of the combinations of a pair when it has a chord there, and else not
at all. -/
theorem chords_agree {source : Text} {defaults : List DefaultOption} {m : Keymap}
    {t : Firmware.Table} {doc : Diagram.Document} (hread : Keymap.read source defaults = .ok m)
    (hfirmware : Firmware.Table.build m = .ok t) (hdiagram : Diagram.build m = .ok doc) :
    t.chords.keys = (doc.combos.map Diagram.Combo.pair).eraseDups ∧
      ∀ p ∈ t.chords.keys, ∀ l ∈ m.layers,
        (Diagram.layersOn doc.combos p).count l.name = if p ∈ l.pairs then 1 else 0 := by
  have hm := wellFormed_of_read hread
  have hcollects : Diagram.Collects m.occurrences doc.combos := by
    unfold Diagram.build at hdiagram
    obtain ⟨keyboard, -, hdiagram⟩ := bind_eq_ok_iff.mp hdiagram
    obtain ⟨⟨layers, combos⟩, hdraw, hdiagram⟩ := bind_eq_ok_iff.mp hdiagram
    obtain rfl := pure_eq_ok_iff.mp hdiagram
    exact Diagram.collects_nil.drawLayers m.layers hdraw hm.nodup_occurrences
  constructor
  · rw [Firmware.Table.keys_chords_of_build hfirmware, hcollects.pairs, map_fst_occurrences]
  · intro p _ l hl
    rw [hcollects.count, hm.count_occurrences hl]

/-- Two layers with chords on the same two pairs, one of them under the same label. -/
def sharedChords : Text :=
  Text.ofString ("options diagram \x7b keyboard: \"k\"; \x7d layout \x7b 3k; \x7d" ++
    "layer a \x7b '1' >'2'< '3' >'4'< '5'; \x7d layer b \x7b '1' >'6'< '3' >'4'< '5'; \x7d")

/-- There are two slots and three combinations, two of them on the first pair. -/
theorem chords_agree_sharedChords : ∃ m t doc p l, Keymap.read sharedChords [] = .ok m ∧
    Firmware.Table.build m = .ok t ∧ Diagram.build m = .ok doc ∧
    t.chords.keys = (doc.combos.map Diagram.Combo.pair).eraseDups ∧
    t.chords.length = 2 ∧ doc.combos.length = 3 ∧ t.chords.keys[0]? = some p ∧
    m.layers[1]? = some l ∧ p ∈ l.pairs ∧
    (Diagram.layersOn doc.combos p).count l.name = if p ∈ l.pairs then 1 else 0 := by
  have hrun : ((Keymap.read sharedChords []).toOption.bind fun m =>
      (Firmware.Table.build m).toOption.bind fun t => (Diagram.build m).toOption.bind fun doc =>
        t.chords.keys[0]?.bind fun p => m.layers[1]?.map fun l =>
          (t.chords.length, doc.combos.length, decide (p ∈ l.pairs))) = some (2, 3, true) := by
    decide +kernel
  obtain ⟨m, hm, hrun⟩ := Option.bind_eq_some_iff.mp hrun
  obtain ⟨t, ht, hrun⟩ := Option.bind_eq_some_iff.mp hrun
  obtain ⟨doc, hdoc, hrun⟩ := Option.bind_eq_some_iff.mp hrun
  obtain ⟨p, hp, hrun⟩ := Option.bind_eq_some_iff.mp hrun
  obtain ⟨l, hl, hrun⟩ := Option.map_eq_some_iff.mp hrun
  simp only [Prod.mk.injEq, decide_eq_true_eq] at hrun
  obtain ⟨hslots, hcombos, hmem⟩ := hrun
  have hread := toOption_eq_some_iff.mp hm
  have hfirmware := toOption_eq_some_iff.mp ht
  have hdiagram := toOption_eq_some_iff.mp hdoc
  obtain ⟨hpairs, hlayers⟩ := chords_agree hread hfirmware hdiagram
  exact ⟨m, t, doc, p, l, hread, hfirmware, hdiagram, hpairs, hslots, hcombos, hp, hl, hmem,
    hlayers p (List.mem_of_getElem? hp) l (List.mem_of_getElem? hl)⟩

end Keymap

end Keyplan
