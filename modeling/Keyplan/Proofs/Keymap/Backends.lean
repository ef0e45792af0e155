import Keyplan.Compilation
import Keyplan.Proofs.Keymap.Forgetting

/-!
# Backends — neither places nor quotes matter

A keymap and the same keymap without its places, and perhaps without its quotes, have the same
firmware and the same diagram; where one of them fails, the other fails and says the same.
-/

namespace Keyplan

open PlainKey (Meaning)
open Outcome

/-- A function on meanings that changes nothing but the quotes of character keys. -/
def OnlyQuotes (f : Meaning → Meaning) : Prop :=
  ∀ meaning, (f meaning).unquoted = meaning.unquoted

theorem onlyQuotes_unquoted : OnlyQuotes Meaning.unquoted := by
  rintro (_ | _ | _) <;> rfl

namespace OnlyQuotes

variable {f : Meaning → Meaning}

theorem named (hf : OnlyQuotes f) (name : String) : f (.named name) = .named name := by
  have h := hf (.named name)
  cases hm : f (.named name) <;> rw [hm] at h <;> cases h
  rfl

theorem layer (hf : OnlyQuotes f) (name : String) : f (.layer name) = .layer name := by
  have h := hf (.layer name)
  cases hm : f (.layer name) <;> rw [hm] at h <;> cases h
  rfl

theorem char (hf : OnlyQuotes f) (c : Char) (quote : Option Char) :
    ∃ quote', f (.char c quote) = .char c quote' := by
  have h := hf (.char c quote)
  cases hm : f (.char c quote) with
  | named name => rw [hm] at h; cases h
  | layer name => rw [hm] at h; cases h
  | char c' quote' =>
    rw [hm] at h
    cases h
    exact ⟨quote', rfl⟩

end OnlyQuotes

variable {E : Diagnostic → Diagnostic → Prop} {f : Meaning → Meaning}

/-! ## Options -/

namespace OptionTable

theorem get?_unlocated (t : OptionTable Backend) (b : Backend) (name : String) :
    t.unlocated.get? b name = (t.get? b name).map OptionValue.unlocated :=
  OrderedMap.get?_mapValues _ _ _

theorem getD_unlocated (t : OptionTable Backend) (b : Backend) (name default : String) :
    t.unlocated.getD b name default = t.getD b name default := by
  unfold getD
  rw [get?_unlocated, Option.map_map]
  rfl

theorem number_tracks (hE : ∀ d : Diagnostic, E d d.gist) (t : OptionTable Backend) (b : Backend)
    (name : String) (default : Int) :
    Tracks E id (t.number b name default) (t.unlocated.number b name default) := by
  unfold number
  rw [get?_unlocated]
  cases t.get? b name with
  | none => exact .ok default
  | some v =>
    have hvalue : v.unlocated.value = v.value := rfl
    simp only [Option.map_some, hvalue]
    cases readInt64? v.value with
    | none => exact .error (hE _)
    | some n =>
      dsimp only
      split
      · exact .error (hE _)
      · exact .ok n

/-- The place of a block or the anchor; without places both are none. -/
theorem place_unlocated (t : OptionTable Backend) (b : Backend) :
    ((t.unlocated.blocks.get? b).getD t.unlocated.anchor : Span) = {} := by
  have hblocks : t.unlocated.blocks = t.blocks.mapValues fun _ => ({} : Span) := rfl
  rw [hblocks, OrderedMap.get?_mapValues]
  cases t.blocks.get? b <;> rfl

theorem require_tracks (hE : ∀ d : Diagnostic, E d d.gist) (t : OptionTable Backend) (b : Backend)
    (name : String) :
    Tracks E (fun e => { e with span := {} }) (t.require b name) (t.unlocated.require b name) := by
  unfold require lookup
  rw [get?_unlocated]
  cases t.get? b name with
  | some v => exact .ok _
  | none =>
    simp only [Option.map_none, place_unlocated]
    exact .error (hE _)

end OptionTable

/-! ## Names -/

namespace Keymap

theorem layerNames_forget (m : Keymap) : (m.forget f).layerNames = m.layerNames := by
  simp [layerNames, forget, Layer.forget]

theorem resolveLayer_tracks (hE : ∀ d : Diagnostic, E d d.gist) (m : Keymap) (name : String)
    (span : Span) :
    Tracks E id (m.resolveLayer name span) ((m.forget f).resolveLayer name {}) := by
  unfold resolveLayer layerIndex?
  rw [layerNames_forget]
  cases m.layerNames.idxOf? name with
  | some i => exact .ok i
  | none => exact .error (hE _)

theorem get?_customKeys_forget (m : Keymap) (b : Backend) (name : String) :
    (m.forget f).customKeys.get? b name = (m.customKeys.get? b name).map CustomOutput.unlocated :=
  OrderedMap.get?_mapValues _ _ _

theorem keyNames_forget (m : Keymap) (b : Backend) : (m.forget f).keyNames b = m.keyNames b := by
  have hnames : (m.forget f).customKeys.names b = m.customKeys.names b := by
    simp [CustomKeys.names, CustomKeys.entries, forget, CustomKeys.unlocated,
      OrderedMap.mapValues, List.filter_map, Function.comp_def]
  unfold keyNames
  rw [hnames]
  simp only [get?_customKeys_forget, Option.isNone_map]

/-- The meaning of a key name without the place it was declared at. -/
def KeyMeaning.unlocated : KeyMeaning → KeyMeaning
  | custom output => custom output.unlocated
  | named key => named key

theorem resolveName_tracks (hE : ∀ d : Diagnostic, E d d.gist) (m : Keymap) (b : Backend)
    (name : String) (span : Span) :
    Tracks E KeyMeaning.unlocated (m.resolveName b name span)
      ((m.forget f).resolveName b name {}) := by
  unfold resolveName
  rw [get?_customKeys_forget]
  cases m.customKeys.get? b name with
  | some output => exact .ok (KeyMeaning.custom output)
  | none =>
    dsimp only [Option.map_none]
    cases NamedKey.find? name with
    | some key => exact .ok (KeyMeaning.named key)
    | none =>
      refine .error ?_
      -- The suggestions of the diagnostic come from the same names.
      have hgist : (m.forget f).unknownKey b name {} = (m.unknownKey b name span).gist := by
        unfold unknownKey
        rw [keyNames_forget]
        rfl
      rw [hgist]
      exact hE _

theorem resolveChar_tracks (hE : ∀ d : Diagnostic, E d d.gist) (c : Char) (span : Span) :
    Tracks E id (resolveChar c span) (resolveChar c {}) := by
  unfold resolveChar
  cases CharKey.find? c with
  | some key => exact .ok key
  | none => exact .error (hE _)

end Keymap

/-! ## Firmware -/

namespace Firmware

def Binder.forget (f : Meaning → Meaning) (b : Binder) : Binder :=
  { b with keymap := b.keymap.forget f }

theorem Binder.ofKeymap_tracks (hE : ∀ d : Diagnostic, E d d.gist) (m : Keymap) :
    Tracks E (Binder.forget f) (Binder.ofKeymap m) (Binder.ofKeymap (m.forget f)) := by
  unfold Binder.ofKeymap
  refine (OptionTable.number_tracks hE m.options _ _ _).bind fun timeout => ?_
  exact (OptionTable.number_tracks hE m.options _ _ _).bind fun interval => .ok _

theorem Binder.bindPlain_tracks (hE : ∀ d : Diagnostic, E d d.gist) (hf : OnlyQuotes f)
    (b : Binder) (k : PlainKey) :
    Tracks E id (b.bindPlain k) ((b.forget f).bindPlain (k.forget f)) := by
  have hmeaning : (k.forget f).meaning = f k.meaning := rfl
  unfold Binder.bindPlain
  rw [hmeaning]
  cases k.meaning with
  | layer name =>
    rw [hf.layer]
    exact (Keymap.resolveLayer_tracks hE b.keymap name k.span).bind fun i => .ok _
  | char c quote =>
    obtain ⟨quote', hquote⟩ := hf.char c quote
    rw [hquote]
    exact (Keymap.resolveChar_tracks hE c k.span).bind fun key => .ok _
  | named name =>
    rw [hf.named]
    refine (Keymap.resolveName_tracks hE b.keymap .firmware name k.span).bind fun meaning => ?_
    cases meaning <;> exact .ok _

theorem Binder.bind_tracks (hE : ∀ d : Diagnostic, E d d.gist) (hf : OnlyQuotes f) (b : Binder)
    (k : Key) : Tracks E id (b.bind k) ((b.forget f).bind (k.forget f)) := by
  obtain ⟨tap, hold, span⟩ := k
  unfold Binder.bind
  refine (b.bindPlain_tracks hE hf tap).bind fun action => ?_
  cases hold with
  | none => exact .ok _
  | some h => exact (b.bindPlain_tracks hE hf h.key).bind fun held => .ok _

theorem Allocator.allocate_tracks (hE : ∀ d : Diagnostic, E d d.gist) (a : Allocator ChordPair)
    (k : ChordPair) (span : Span) : Tracks E id (a.allocate k span) (a.allocate k {}) := by
  unfold Allocator.allocate
  cases a.slots.get? k with
  | some pos => exact .ok _
  | none => exact (Layout.locate_tracks hE _ _ _).bind fun pos => .ok _

namespace Table

theorem placeChords_tracks (hE : ∀ d : Diagnostic, E d d.gist) (a : Allocator ChordPair)
    (chords : List PlacedChord) :
    Tracks E (Prod.map (OrderedMap.mapValues (Key.forget f)) id) (placeChords a chords)
      (placeChords a (chords.map (PlacedChord.forget f))) := by
  unfold placeChords
  refine Tracks.foldlM (φ := PlacedChord.forget f)
    (ψ := Prod.map (OrderedMap.mapValues (Key.forget f)) id) chords ?_ ([], a)
  rintro ⟨placed, a⟩ c
  refine (a.allocate_tracks hE ⟨c.left, c.right⟩ c.chord.span).bind fun slot => .pure ?_
  simp only [Prod.map, id_eq, OrderedMap.mapValues_insert]
  rfl

theorem mapValues_placeKeys (placed : OrderedMap MatrixPos Key) (keys : List PlacedKey) :
    OrderedMap.mapValues (Key.forget f) (placeKeys placed keys) =
      placeKeys (placed.mapValues (Key.forget f)) (keys.map (PlacedKey.forget f)) := by
  unfold placeKeys
  induction keys generalizing placed with
  | nil => rfl
  | cons k keys ih =>
    rw [List.foldl_cons, List.map_cons, List.foldl_cons, ih, OrderedMap.mapValues_insert]
    rfl

theorem bindLayer_tracks (hE : ∀ d : Diagnostic, E d d.gist) (hf : OnlyQuotes f) (b : Binder)
    (a : Allocator ChordPair) (l : Layer) :
    Tracks E id (bindLayer b a l) (bindLayer (b.forget f) a (l.forget f)) := by
  -- Positions are kept, so the same entries are keys and the same are chords.
  have hfilter : ∀ (p : MatrixPos → Bool) (placed : OrderedMap MatrixPos Key),
      (placed.mapValues (Key.forget f)).filter (fun e => p e.1) =
        (placed.filter fun e => p e.1).map fun e => (e.1, e.2.forget f) := by
    intro p placed
    show (placed.map _).filter _ = _
    rw [List.filter_map]
    rfl
  have hbind : ∀ e : MatrixPos × Key,
      Tracks E id (bindAt b e) (bindAt (b.forget f) (e.1, e.2.forget f)) := by
    rintro ⟨pos, key⟩
    exact (b.bind_tracks hE hf key).bind fun action => .ok _
  unfold bindLayer
  refine (placeChords_tracks hE a l.chords).bind fun placed => ?_
  obtain ⟨chordKeys, a'⟩ := placed
  simp only [Prod.map, id_eq]
  have hkeys : (l.forget f).keys = l.keys.map (PlacedKey.forget f) := rfl
  rw [hkeys, ← mapValues_placeKeys, hfilter (fun pos => !a'.isExtra pos.row),
    hfilter (fun pos => a'.isExtra pos.row)]
  have hmap := fun entries : List (MatrixPos × Key) =>
    Tracks.mapM (φ := fun e => (e.1, e.2.forget f)) entries fun e _ => hbind e
  refine (hmap _).bind fun keys => ?_
  refine (hmap _).bind fun chords => .pure ?_
  simp

theorem bindLayers_tracks (hE : ∀ d : Diagnostic, E d d.gist) (hf : OnlyQuotes f) (b : Binder)
    (layers : List Layer) (a : Allocator ChordPair) :
    Tracks E id (bindLayers b a layers)
      (bindLayers (b.forget f) a (layers.map (Layer.forget f))) := by
  induction layers generalizing a with
  | nil => exact .ok ([], a)
  | cons l layers ih =>
    refine (bindLayer_tracks hE hf b a l).bind fun first => ?_
    exact (ih first.2).bind fun others => .ok _

theorem build_tracks (hE : ∀ d : Diagnostic, E d d.gist) (hf : OnlyQuotes f) (m : Keymap) :
    Tracks E id (build m) (build (m.forget f)) := by
  unfold build
  refine (Binder.ofKeymap_tracks hE m).bind fun b => ?_
  refine (bindLayers_tracks hE hf b m.layers _).bind fun bound => .pure ?_
  have hevent : (m.forget f).options.getD .firmware "custom_event" defaultCustomEvent =
      m.options.getD .firmware "custom_event" defaultCustomEvent :=
    OptionTable.getD_unlocated ..
  simp only [id_eq, Keymap.layerNames_forget, hevent]
  rfl

end Table

end Firmware

/-! ## Diagrams -/

namespace Diagram

theorem plainLabel_tracks (hE : ∀ d : Diagnostic, E d d.gist) (hf : OnlyQuotes f) (m : Keymap)
    (k : PlainKey) : Tracks E id (plainLabel m k) (plainLabel (m.forget f) (k.forget f)) := by
  have hmeaning : (k.forget f).meaning = f k.meaning := rfl
  unfold plainLabel
  rw [hmeaning]
  cases k.meaning with
  | layer name =>
    rw [hf.layer]
    exact (Keymap.resolveLayer_tracks hE m name k.span).bind fun i => .ok _
  | char c quote =>
    obtain ⟨quote', hquote⟩ := hf.char c quote
    rw [hquote]
    exact (Keymap.resolveChar_tracks hE c k.span).bind fun key => .ok _
  | named name =>
    rw [hf.named]
    refine (Keymap.resolveName_tracks hE m .diagram name k.span).bind fun meaning => ?_
    cases meaning <;> exact .ok _

theorem keyLabel_tracks (hE : ∀ d : Diagnostic, E d d.gist) (hf : OnlyQuotes f) (m : Keymap)
    (k : Key) : Tracks E id (keyLabel m k) (keyLabel (m.forget f) (k.forget f)) := by
  obtain ⟨tap, hold, span⟩ := k
  unfold keyLabel
  refine (plainLabel_tracks hE hf m tap).bind fun label => ?_
  cases hold with
  | none => exact .ok _
  | some h => exact (plainLabel_tracks hE hf m h.key).bind fun held => .ok _

theorem labelLayer_tracks (hE : ∀ d : Diagnostic, E d d.gist) (hf : OnlyQuotes f) (m : Keymap)
    (l : Layer) : Tracks E id (labelLayer m l) (labelLayer (m.forget f) (l.forget f)) := by
  unfold labelLayer
  refine (Tracks.mapM (φ := PlacedKey.forget f) (ψ := id) l.keys fun k _ => ?_).bind
    fun labels => .pure ?_
  · exact (keyLabel_tracks hE hf m k.key).bind fun label => .ok _
  · rw [List.map_id]
    rfl

theorem addChords_tracks (hE : ∀ d : Diagnostic, E d d.gist) (hf : OnlyQuotes f) (m : Keymap)
    (l : Layer) (combos : List Combo) :
    Tracks E id (addChords m l combos) (addChords (m.forget f) (l.forget f) combos) := by
  unfold addChords
  refine Tracks.foldlM (φ := PlacedChord.forget f) (ψ := id) l.chords ?_ combos
  intro combos c
  have hcombo : Tracks E id (chordCombo m l.name c)
      (chordCombo (m.forget f) (l.forget f).name (c.forget f)) := by
    unfold chordCombo
    exact (keyLabel_tracks hE hf m c.chord.key).bind fun label => .ok _
  exact hcombo.bind fun combo => .ok _

theorem drawLayers_tracks (hE : ∀ d : Diagnostic, E d d.gist) (hf : OnlyQuotes f) (m : Keymap)
    (layers : List Layer) (combos : List Combo) :
    Tracks E id (drawLayers m combos layers)
      (drawLayers (m.forget f) combos (layers.map (Layer.forget f))) := by
  induction layers generalizing combos with
  | nil => exact .ok ([], combos)
  | cons l layers ih =>
    refine (labelLayer_tracks hE hf m l).bind fun labels => ?_
    refine (addChords_tracks hE hf m l combos).bind fun combos' => ?_
    exact (ih combos').bind fun others => .ok _

theorem build_tracks (hE : ∀ d : Diagnostic, E d d.gist) (hf : OnlyQuotes f) (m : Keymap) :
    Tracks E id (build m) (build (m.forget f)) := by
  unfold build
  refine (OptionTable.require_tracks hE m.options _ _).bind fun keyboard => ?_
  refine (drawLayers_tracks hE hf m m.layers []).bind fun drawn => .pure ?_
  have hlayout : (m.forget f).options.getD .diagram "layout" "" =
      m.options.getD .diagram "layout" "" :=
    OptionTable.getD_unlocated ..
  simp only [id_eq, hlayout]

end Diagram

/-- The firmware and the diagram of a keymap depend neither on places nor on quotes. -/
theorem Target.emit_tracks (hE : ∀ d : Diagnostic, E d d.gist) (hf : OnlyQuotes f) {t : Target}
    (ht : t ≠ .format) (m : Keymap) : Tracks E id (t.emit m) (t.emit (m.forget f)) := by
  cases t with
  | firmware => exact (Firmware.Table.build_tracks hE hf m).map _
  | diagram => exact (Diagram.build_tracks hE hf m).map _
  | format => exact absurd rfl ht

end Keyplan
