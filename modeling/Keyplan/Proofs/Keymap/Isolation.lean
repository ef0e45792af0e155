import Keyplan.Proofs.Compilation.Regrouping
import Keyplan.Proofs.Keymap.Faults

/-!
# Isolation — a backend sees what is addressed to it, and nothing else

A backend reads the layout and the layers, the values of its own options and its own custom keys.
Two keymaps that agree on these are built alike, or refused alike, whatever they hold for other
backends. Places are dropped on both sides first; what is looked up is then the same.
-/

namespace Keyplan

open Outcome

/-! ## 1. What a backend sees -/

theorem CustomKeys.get?_eq_entries (c : CustomKeys) (b : Backend) (name : String) :
    c.get? b name = OrderedMap.get? (c.entries b) name :=
  (OrderedMap.get?_addressed b name c.outputs).symm

theorem OptionTable.value_eq_entries (t : OptionTable Backend) (b : Backend) (name : String) :
    (t.get? b name).map (·.value) =
      OrderedMap.get? ((t.entries b).map fun e => (e.name, e.value)) name := by
  unfold get? entries
  rw [← OrderedMap.get?_addressed, ← OrderedMap.get?_mapValues, OrderedMap.mapValues,
    OrderedMap.addressed, List.map_map, List.map_map]
  rfl

namespace Keymap

/-- The same options are in force for backend `b`, and it has the same custom keys in the same
order. -/
structure SameFor (b : Backend) (m m' : Keymap) : Prop where
  options : ∀ name,
    (m.options.get? b name).map (·.value) = (m'.options.get? b name).map (·.value)
  customKeys : OrderedMap.mapValues (·.text) (m.customKeys.entries b) =
    OrderedMap.mapValues (·.text) (m'.customKeys.entries b)

/-- All that backend `b` can see is the same, up to places. -/
structure Alike (b : Backend) (m m' : Keymap) : Prop extends SameFor b m m' where
  layout : m.layout = m'.layout
  layers : m.layers.map (Layer.forget id) = m'.layers.map (Layer.forget id)

/-- Keymaps of descriptions with the same layout and the same layers. -/
theorem SameFor.alike {d d' : Description} {defaults defaults' : List DefaultOption}
    {m m' : Keymap} (hm : resolve d defaults = .ok m) (hm' : resolve d' defaults' = .ok m')
    (hlayout : d.layout.unlocated = d'.layout.unlocated)
    (hlayers : d.layers.map (LayerBlock.forget id) = d'.layers.map (LayerBlock.forget id))
    {b : Backend} (h : SameFor b m m') : Alike b m m' := by
  obtain ⟨-, hl, hls⟩ := resolve_eq_ok hm
  obtain ⟨-, hl', hls'⟩ := resolve_eq_ok hm'
  -- Both layouts are the one of the block without its places.
  have hbare := (Layout.resolve_tracks (E := fun _ _ => True) (fun _ => trivial) d.layout).of_ok hl
  have hbare' :=
    (Layout.resolve_tracks (E := fun _ _ => True) (fun _ => trivial) d'.layout).of_ok hl'
  rw [hlayout, hbare'] at hbare
  have hsame : m.layout = m'.layout := (Except.ok.inj hbare).symm
  refine ⟨h, hsame, ?_⟩
  have htracks := fun layers => Layer.resolveAll_tracks (E := fun d e => d.gist = e)
    (fun _ => rfl) Layer.reportsChords_id m.layout layers
  have hforget := (htracks d.layers).of_ok hls
  rw [← hsame] at hls'
  rw [hlayers, (htracks d'.layers).of_ok hls'] at hforget
  exact (Except.ok.inj hforget).symm

/-! ## 2. What is looked up -/

namespace Alike

variable {b : Backend} {m m' : Keymap} (h : Alike b m m')
include h

theorem get?_options (name : String) :
    (m.forget id).options.get? b name = (m'.forget id).options.get? b name := by
  have hvalue := congrArg (Option.map (OptionValue.mk · {})) (h.options name)
  rw [Option.map_map, Option.map_map] at hvalue
  show m.options.unlocated.get? b name = m'.options.unlocated.get? b name
  rw [OptionTable.get?_unlocated, OptionTable.get?_unlocated]
  exact hvalue

theorem getD_options (name default : String) :
    (m.forget id).options.getD b name default = (m'.forget id).options.getD b name default := by
  unfold OptionTable.getD
  rw [h.get?_options]

theorem number_options (name : String) (default : Int) :
    (m.forget id).options.number b name default =
      (m'.forget id).options.number b name default := by
  unfold OptionTable.number
  rw [h.get?_options]

theorem require_options (name : String) :
    (m.forget id).options.require b name = (m'.forget id).options.require b name := by
  have hplace : ∀ m : Keymap, (((m.forget id).options.blocks.get? b).getD
      (m.forget id).options.anchor : Span) = {} :=
    fun m => m.options.place_unlocated b
  unfold OptionTable.require OptionTable.lookup
  rw [h.get?_options, hplace, hplace]

theorem get?_customKeys (name : String) :
    (m.forget id).customKeys.get? b name = (m'.forget id).customKeys.get? b name := by
  have htext := congrArg (OrderedMap.get? · name) h.customKeys
  simp only [OrderedMap.get?_mapValues, ← CustomKeys.get?_eq_entries] at htext
  have hout := congrArg (Option.map (CustomOutput.mk · {})) htext
  rw [Option.map_map, Option.map_map] at hout
  rw [get?_customKeys_forget, get?_customKeys_forget]
  exact hout

theorem keyNames : m.keyNames b = m'.keyNames b := by
  have hnames : m.customKeys.names b = m'.customKeys.names b := by
    have hkeys := congrArg OrderedMap.keys h.customKeys
    unfold OrderedMap.keys OrderedMap.mapValues at hkeys
    rw [List.map_map, List.map_map] at hkeys
    exact hkeys
  have hnone : ∀ name,
      (m.customKeys.get? b name).isNone = (m'.customKeys.get? b name).isNone := by
    intro name
    have hget := congrArg Option.isNone (h.get?_customKeys name)
    rwa [get?_customKeys_forget, get?_customKeys_forget, Option.isNone_map,
      Option.isNone_map] at hget
  unfold Keymap.keyNames
  rw [hnames]
  simp only [hnone]

theorem resolveName (name : String) (span : Span) :
    (m.forget id).resolveName b name span = (m'.forget id).resolveName b name span := by
  unfold Keymap.resolveName unknownKey
  rw [h.get?_customKeys, keyNames_forget, keyNames_forget, h.keyNames]

theorem layerNames : (m.forget id).layerNames = (m'.forget id).layerNames :=
  congrArg (List.map Layer.name) h.layers

theorem resolveLayer (name : String) (span : Span) :
    (m.forget id).resolveLayer name span = (m'.forget id).resolveLayer name span := by
  unfold Keymap.resolveLayer layerIndex?
  rw [h.layerNames]

end Alike

end Keymap

/-! ## 3. Firmware -/

namespace Firmware

variable {b b' : Binder}

theorem Binder.bindPlain_eq
    (hlayer : ∀ name span, b.keymap.resolveLayer name span = b'.keymap.resolveLayer name span)
    (hname : ∀ name span,
      b.keymap.resolveName .firmware name span = b'.keymap.resolveName .firmware name span)
    (k : PlainKey) : b.bindPlain k = b'.bindPlain k := by
  unfold Binder.bindPlain
  cases k.meaning with
  | layer name => simp only [hlayer]
  | char c quote => rfl
  | named name => simp only [hname]

theorem Binder.bind_eq (hplain : ∀ k, b.bindPlain k = b'.bindPlain k)
    (htimeout : b.timeout = b'.timeout) (hinterval : b.interval = b'.interval) (k : Key) :
    b.bind k = b'.bind k := by
  unfold Binder.bind
  rw [hplain, htimeout, hinterval]
  cases k.hold with
  | none => rfl
  | some hold => simp only [hplain]

namespace Table

/-- Binders that bind every key alike bind layers alike. -/
theorem bindLayers_eq (hbind : ∀ k, b.bind k = b'.bind k) (layers : List Layer)
    (a : Allocator ChordPair) : bindLayers b a layers = bindLayers b' a layers := by
  have hat : bindAt b = bindAt b' := by
    funext entry
    unfold bindAt
    rw [hbind]
  induction layers generalizing a with
  | nil => rfl
  | cons l layers ih =>
    unfold bindLayers bindLayer
    simp only [hat, ih]

/-- The firmware sees nothing that is addressed to others. -/
theorem build_eq_of_alike {m m' : Keymap} (h : m.Alike .firmware m') :
    build (m.forget id) = build (m'.forget id) := by
  have hlayout : (m.forget id).layout = (m'.forget id).layout := h.layout
  have hlayers : (m.forget id).layers = (m'.forget id).layers := h.layers
  unfold build Binder.ofKeymap
  rw [h.number_options, h.number_options, h.getD_options, h.layerNames, hlayout, hlayers]
  cases (m'.forget id).options.number .firmware "hold_tap_timeout" Binder.defaultTimeout with
  | error d => rfl
  | ok timeout =>
    cases (m'.forget id).options.number .firmware "hold_tap_interval" Binder.defaultInterval with
    | error d => rfl
    | ok interval =>
      simp only [ok_bind, pure_bind]
      rw [bindLayers_eq]
      intro k
      refine Binder.bind_eq (fun k => ?_) ?_ ?_ k
      · exact Binder.bindPlain_eq h.resolveLayer h.resolveName k
      · rfl
      · rfl

end Table

end Firmware

/-! ## 4. Diagrams -/

namespace Diagram

variable {m m' : Keymap}

theorem keyLabel_eq
    (hlayer : ∀ name span, m.resolveLayer name span = m'.resolveLayer name span)
    (hname : ∀ name span,
      m.resolveName .diagram name span = m'.resolveName .diagram name span)
    (k : Key) : keyLabel m k = keyLabel m' k := by
  have hplain : ∀ k, plainLabel m k = plainLabel m' k := by
    intro k
    unfold plainLabel
    cases k.meaning with
    | layer name => simp only [hlayer]
    | char c quote => rfl
    | named name => simp only [hname]
  unfold keyLabel
  rw [hplain]
  cases k.hold with
  | none => rfl
  | some hold => simp only [hplain]

/-- Layers whose keys are labelled alike, on one layout, are drawn alike. -/
theorem drawLayers_eq (hlayout : m.layout = m'.layout) (hlabel : ∀ k, keyLabel m k = keyLabel m' k)
    (layers : List Layer) (combos : List Combo) :
    drawLayers m combos layers = drawLayers m' combos layers := by
  induction layers generalizing combos with
  | nil => rfl
  | cons l layers ih =>
    unfold drawLayers labelLayer addChords chordCombo
    simp only [hlayout, hlabel, ih]

/-- The diagram sees nothing that is addressed to others. -/
theorem build_eq_of_alike (h : m.Alike .diagram m') :
    build (m.forget id) = build (m'.forget id) := by
  have hlayers : (m.forget id).layers = (m'.forget id).layers := h.layers
  have hlayout : (m.forget id).layout = (m'.forget id).layout := h.layout
  have hlabel := keyLabel_eq h.resolveLayer h.resolveName
  have hdraw := drawLayers_eq hlayout hlabel (m'.forget id).layers []
  unfold build
  rw [h.require_options, h.getD_options, hlayers, hdraw]

end Diagram

/-! ## 5. Both -/

/-- Up to places, the firmware and the diagram depend only on what their backend sees. -/
theorem Target.emit_eq_of_alike {t : Target} (ht : t ≠ .format) {m m' : Keymap}
    (h : m.Alike t.backend m') :
    (t.emit m).mapError Diagnostic.gist = (t.emit m').mapError Diagnostic.gist := by
  rw [(t.emit_unlocated m).mapError_eq, (t.emit_unlocated m').mapError_eq]
  cases t with
  | firmware => exact congrArg (Except.map _) (Firmware.Table.build_eq_of_alike h)
  | diagram => exact congrArg (Except.map _) (Diagram.build_eq_of_alike h)
  | format => exact absurd rfl ht

namespace Keymap

/-- Take two descriptions that resolve and have the same layout and the same layers, up to places.
If they agree on the options in force for a backend and on its custom keys, the backend builds the
same from both and writes the same, or fails on both and says the same. What they hold for other
backends does not matter. -/
theorem builds_isolated {d d' : Description} {defaults defaults' : List DefaultOption}
    {m m' : Keymap} (hm : resolve d defaults = .ok m) (hm' : resolve d' defaults' = .ok m')
    (hlayout : d.layout.unlocated = d'.layout.unlocated)
    (hlayers : d.layers.map (LayerBlock.forget id) = d'.layers.map (LayerBlock.forget id)) :
    (m.SameFor .firmware m' →
      (Firmware.Table.build m).mapError Diagnostic.gist =
          (Firmware.Table.build m').mapError Diagnostic.gist ∧
        (Target.firmware.emit m).mapError Diagnostic.gist =
          (Target.firmware.emit m').mapError Diagnostic.gist) ∧
    (m.SameFor .diagram m' →
      (Diagram.build m).mapError Diagnostic.gist = (Diagram.build m').mapError Diagnostic.gist ∧
        (Target.diagram.emit m).mapError Diagnostic.gist =
          (Target.diagram.emit m').mapError Diagnostic.gist) := by
  constructor
  · intro h
    have halike := h.alike hm hm' hlayout hlayers
    have htracks := fun m => Firmware.Table.build_tracks (E := fun d e => d.gist = e) (f := id)
      (fun _ => rfl) (fun _ => rfl) m
    refine ⟨?_, Target.emit_eq_of_alike (t := .firmware) (by decide) halike⟩
    rw [(htracks m).mapError_eq, (htracks m').mapError_eq]
    exact Firmware.Table.build_eq_of_alike halike
  · intro h
    have halike := h.alike hm hm' hlayout hlayers
    have htracks := fun m => Diagram.build_tracks (E := fun d e => d.gist = e) (f := id)
      (fun _ => rfl) (fun _ => rfl) m
    refine ⟨?_, Target.emit_eq_of_alike (t := .diagram) (by decide) halike⟩
    rw [(htracks m).mapError_eq, (htracks m').mapError_eq]
    exact Diagram.build_eq_of_alike halike

/-- A key that the firmware does not have, though the diagram does. -/
def drawnKey : Text :=
  Text.ofString ("layout\x7b2k;\x7doptions firmware\x7bt:\"7\";\x7d" ++
    "key x\x7bout firmware:\"X\";\x7dkey y\x7bout diagram:\"Y\";\x7dlayer l\x7bx y;\x7d")

/-- The same for the firmware; no other backend has the key either. -/
def undrawnKey : Text :=
  Text.ofString ("layer l\x7bx\ny;\x7dkey x\x7bout firmware:\"X\";\x7d" ++
    "options firmware\x7bt:\"8\";t:\"7\";\x7dlayout\x7b2k;\x7d")

theorem builds_isolated_undrawnKey : ∃ d d' m m',
    Description.parse drawnKey = .ok d ∧ Description.parse undrawnKey = .ok d' ∧
    resolve d [] = .ok m ∧ resolve d' [] = .ok m' ∧ m.SameFor .firmware m' ∧
    m.customKeys.names .diagram ≠ m'.customKeys.names .diagram ∧
    (Firmware.Table.build m).mapError Diagnostic.gist =
      (Firmware.Table.build m').mapError Diagnostic.gist := by
  have hrun : (do
      let d ← Description.parse drawnKey
      let d' ← Description.parse undrawnKey
      let m ← resolve d []
      let m' ← resolve d' []
      return decide (d.layout.unlocated = d'.layout.unlocated ∧
        d.layers.map (LayerBlock.forget id) = d'.layers.map (LayerBlock.forget id) ∧
        ((m.options.entries .firmware).map fun e => (e.name, e.value)) =
          ((m'.options.entries .firmware).map fun e => (e.name, e.value)) ∧
        OrderedMap.mapValues (·.text) (m.customKeys.entries .firmware) =
          OrderedMap.mapValues (·.text) (m'.customKeys.entries .firmware) ∧
        m.customKeys.names .diagram ≠ m'.customKeys.names .diagram) :
      Except Diagnostic Bool).toOption = some true := by
    decide +kernel
  obtain ⟨d, hd, hrun⟩ := bind_eq_ok_iff.mp (toOption_eq_some_iff.mp hrun)
  obtain ⟨d', hd', hrun⟩ := bind_eq_ok_iff.mp hrun
  obtain ⟨m, hm, hrun⟩ := bind_eq_ok_iff.mp hrun
  obtain ⟨m', hm', hrun⟩ := bind_eq_ok_iff.mp hrun
  obtain ⟨hlayout, hlayers, hoptions, hkeys, hother⟩ :=
    of_decide_eq_true (pure_eq_ok_iff.mp hrun)
  have hsame : m.SameFor .firmware m' := by
    refine ⟨fun name => ?_, hkeys⟩
    rw [OptionTable.value_eq_entries, OptionTable.value_eq_entries, hoptions]
  exact ⟨d, d', m, m', hd, hd', hm, hm', hsame, hother,
    ((builds_isolated hm hm' hlayout hlayers).1 hsame).1⟩

end Keymap

end Keyplan
