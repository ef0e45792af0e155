import Keyplan.Proofs.Keymap.Agreement

/-!
# Faults — what a backend can fail with

A backend fails with a numeric option, with an option it cannot do without, for want of room for a
chord, or with a plain key of a layer that it looks up in vain. Nothing else stops it. What the
firmware binds where it does not fail are the keys of its layers.
-/

namespace Keyplan

open Outcome

def Target.backend : Target → Backend
  | firmware => .firmware
  | diagram => .diagram
  | format => .formatter

namespace Keymap

/-- What the lookup of a plain key fails with. -/
inductive Refuses (m : Keymap) (b : Backend) (p : PlainKey) (d : Diagnostic) : Prop
  | layer {name : String} (meaning : p.meaning = .layer name)
    (refused : m.resolveLayer name p.span = .error d)
  | char {c : Char} {quote : Option Char} (meaning : p.meaning = .char c quote)
    (refused : resolveChar c p.span = .error d)
  | named {name : String} (meaning : p.meaning = .named name)
    (refused : m.resolveName b name p.span = .error d)

/-- What a backend fails with. -/
inductive Fails (m : Keymap) (b : Backend) (d : Diagnostic) : Prop
  | number {name : String} {default : Int} (refused : m.options.number b name default = .error d)
  | required {name : String} (refused : m.options.require b name = .error d)
  | room {l : Layer} {c : PlacedChord} {a : Firmware.Allocator Firmware.ChordPair}
    (layer : l ∈ m.layers) (chord : c ∈ l.chords)
    (refused : a.allocate c.pair c.chord.span = .error d)
  | key {l : Layer} {k : Key} {p : PlainKey} (layer : l ∈ m.layers) (bound : k ∈ l.bindings)
    (plain : p ∈ k.plainKeys) (refused : m.Refuses b p d)

end Keymap

theorem Key.held_mem_plainKeys {k : Key} {h : Hold} (hhold : k.hold = some h) :
    h.key ∈ k.plainKeys := by
  rw [plainKeys, hhold]
  exact List.mem_cons_of_mem _ List.mem_cons_self

variable {l : Layer}

/-! ## 1. The firmware -/

namespace Firmware

variable {b : Binder}

theorem Binder.ofKeymap_eq_ok {m : Keymap} (h : Binder.ofKeymap m = .ok b) :
    b.keymap = m ∧
      m.options.number .firmware "hold_tap_timeout" defaultTimeout = .ok b.timeout := by
  unfold Binder.ofKeymap at h
  obtain ⟨timeout, htimeout, h⟩ := bind_eq_ok_iff.mp h
  obtain ⟨interval, -, h⟩ := bind_eq_ok_iff.mp h
  obtain rfl := pure_eq_ok_iff.mp h
  exact ⟨rfl, htimeout⟩

theorem Binder.bindPlain_fails (b : Binder) (p : PlainKey) :
    Meets (b.keymap.Refuses .firmware p) (fun _ => True) (b.bindPlain p) := by
  unfold Binder.bindPlain
  cases hmeaning : p.meaning with
  | layer name => exact (Meets.of_error fun d => .layer hmeaning).bind fun _ _ => trivial
  | char c quote => exact (Meets.of_error fun d => .char hmeaning).bind fun _ _ => trivial
  | named name => exact (Meets.of_error fun d => .named hmeaning).bind fun _ _ => trivial

theorem Binder.bind_fails (hl : l ∈ b.keymap.layers) {k : Key} (hk : k ∈ l.bindings) :
    Meets (b.keymap.Fails .firmware) (fun _ => True) (b.bind k) := by
  have hplain : ∀ p ∈ k.plainKeys,
      Meets (b.keymap.Fails .firmware) (fun _ => True) (b.bindPlain p) := by
    intro p hp
    exact (b.bindPlain_fails p).mono (fun d => .key hl hk hp) fun _ h => h
  unfold Binder.bind
  apply (hplain k.tap List.mem_cons_self).bind
  intro tap _
  cases hhold : k.hold with
  | none => trivial
  | some h => exact (hplain h.key (k.held_mem_plainKeys hhold)).bind fun _ _ => trivial

namespace Table

/-- Only keys of the layer are put at positions. -/
def Holds (l : Layer) (placed : OrderedMap MatrixPos Key) : Prop :=
  ∀ e ∈ placed, e.2 ∈ l.bindings

theorem Holds.insert {placed : OrderedMap MatrixPos Key} (h : Holds l placed) (pos : MatrixPos)
    {k : Key} (hk : k ∈ l.bindings) : Holds l (placed.insert pos k) :=
  OrderedMap.forall_insert h hk

theorem placeChords_fails (hl : l ∈ b.keymap.layers) (a : Allocator ChordPair) :
    Meets (b.keymap.Fails .firmware) (fun p => Holds l p.1) (placeChords a l.chords) := by
  apply Meets.foldlM
  · intro c hc p hp
    apply Meets.bind (Q := fun _ => True) (Meets.of_error fun d => .room hl hc)
    intro found _
    apply hp.insert
    exact List.mem_append_right _ (List.mem_map_of_mem hc)
  · exact fun e he => nomatch he

theorem placeKeys_holds {placed : OrderedMap MatrixPos Key} (hplaced : Holds l placed)
    {keys : List PlacedKey} (hkeys : ∀ k ∈ keys, k.key ∈ l.bindings) :
    Holds l (placeKeys placed keys) := by
  induction keys generalizing placed with
  | nil => exact hplaced
  | cons k keys ih =>
    obtain ⟨hk, hrest⟩ := List.forall_mem_cons.mp hkeys
    exact ih (hplaced.insert k.matrix hk) hrest

/-- Every action is bound from a key of the layer. -/
def BoundFrom (b : Binder) (l : Layer) (bound : OrderedMap MatrixPos Action) : Prop :=
  ∀ e ∈ bound, ∃ k ∈ l.bindings, b.bind k = .ok e.2

theorem bindAll_meets (hl : l ∈ b.keymap.layers) {placed : OrderedMap MatrixPos Key}
    (h : Holds l placed) (p : MatrixPos × Key → Bool) :
    Meets (b.keymap.Fails .firmware) (BoundFrom b l) ((placed.filter p).mapM (bindAt b)) := by
  apply Meets.mapM
  intro e he
  have hkey := h e (List.mem_filter.mp he).1
  have hbind := Binder.bind_fails hl hkey
  unfold bindAt
  cases haction : b.bind e.2 with
  | error d =>
    rw [haction] at hbind
    exact hbind
  | ok action => exact ⟨e.2, hkey, haction⟩

theorem bindLayer_meets (hl : l ∈ b.keymap.layers) (a : Allocator ChordPair) :
    Meets (b.keymap.Fails .firmware) (fun p => BoundFrom b l p.1) (bindLayer b a l) := by
  unfold bindLayer
  apply (placeChords_fails hl a).bind
  intro p hp
  have hplaced := placeKeys_holds hp fun k hk =>
    List.mem_append_left _ (List.mem_map_of_mem hk)
  apply (bindAll_meets hl hplaced _).bind
  intro keys hkeys
  apply (bindAll_meets hl hplaced _).bind
  intro chords hchords
  exact List.forall_mem_append.mpr ⟨hkeys, hchords⟩

theorem bindLayers_meets (a : Allocator ChordPair) {layers : List Layer}
    (hlayers : ∀ l ∈ layers, l ∈ b.keymap.layers) :
    Meets (b.keymap.Fails .firmware) (fun p => List.Forall₂ (BoundFrom b) layers p.1)
      (bindLayers b a layers) := by
  induction layers generalizing a with
  | nil => exact .nil
  | cons l layers ih =>
    obtain ⟨hl, hrest⟩ := List.forall_mem_cons.mp hlayers
    rw [bindLayers]
    apply (bindLayer_meets hl a).bind
    intro p hp
    apply (ih p.2 hrest).bind
    intro q hq
    exact .cons hp hq

theorem build_fails (m : Keymap) :
    Meets (m.Fails .firmware) (fun _ => True) (Table.build m) := by
  have hnumber : ∀ name n, Meets (m.Fails .firmware) (fun _ => True)
      (m.options.number .firmware name n) := fun name n => Meets.of_error fun d => .number
  have hbinder : Meets (m.Fails .firmware) (fun b => b.keymap = m) (Binder.ofKeymap m) := by
    unfold Binder.ofKeymap
    apply (hnumber _ _).bind
    intro timeout _
    exact (hnumber _ _).bind fun _ _ => rfl
  unfold build
  apply hbinder.bind
  rintro b rfl
  exact (bindLayers_meets _ fun _ hl => hl).bind fun _ _ => trivial

end Table

end Firmware

/-! ## 2. The diagram -/

namespace Diagram

variable {m : Keymap}

theorem plainLabel_fails (m : Keymap) (p : PlainKey) :
    Meets (m.Refuses .diagram p) (fun _ => True) (plainLabel m p) := by
  unfold plainLabel
  cases hmeaning : p.meaning with
  | layer name => exact (Meets.of_error fun d => .layer hmeaning).bind fun _ _ => trivial
  | char c quote => exact (Meets.of_error fun d => .char hmeaning).bind fun _ _ => trivial
  | named name =>
    apply Meets.bind (Q := fun _ => True) (Meets.of_error fun d => .named hmeaning)
    intro meaning _
    cases meaning <;> trivial

theorem keyLabel_fails (hl : l ∈ m.layers) {k : Key} (hk : k ∈ l.bindings) :
    Meets (m.Fails .diagram) (fun _ => True) (keyLabel m k) := by
  have hplain : ∀ p ∈ k.plainKeys, Meets (m.Fails .diagram) (fun _ => True) (plainLabel m p) := by
    intro p hp
    exact (plainLabel_fails m p).mono (fun d => .key hl hk hp) fun _ h => h
  unfold keyLabel
  apply (hplain k.tap List.mem_cons_self).bind
  intro tap _
  cases hhold : k.hold with
  | none => trivial
  | some h => exact (hplain h.key (k.held_mem_plainKeys hhold)).bind fun _ _ => trivial

theorem labelLayer_fails (hl : l ∈ m.layers) :
    Meets (m.Fails .diagram) (fun _ => True) (labelLayer m l) := by
  have hkeys : Meets (m.Fails .diagram) (fun ys => ∀ e ∈ ys, True)
      (l.keys.mapM fun k => do return (k.layout, ← keyLabel m k.key)) := by
    apply Meets.mapM
    intro k hk
    have hbound : k.key ∈ l.bindings := List.mem_append_left _ (List.mem_map_of_mem hk)
    exact (keyLabel_fails hl hbound).bind fun _ _ => trivial
  exact hkeys.bind fun _ _ => trivial

theorem addChords_fails (hl : l ∈ m.layers) (combos : List Combo) :
    Meets (m.Fails .diagram) (fun _ => True) (addChords m l combos) := by
  apply Meets.foldlM
  · intro c hc combos _
    have hbound : c.chord.key ∈ l.bindings := List.mem_append_right _ (List.mem_map_of_mem hc)
    have hcombo : Meets (m.Fails .diagram) (fun _ => True) (chordCombo m l.name c) :=
      (keyLabel_fails hl hbound).bind fun _ _ => trivial
    exact hcombo.bind fun _ _ => trivial
  · trivial

theorem drawLayers_fails (combos : List Combo) {layers : List Layer}
    (hlayers : ∀ l ∈ layers, l ∈ m.layers) :
    Meets (m.Fails .diagram) (fun _ => True) (drawLayers m combos layers) := by
  induction layers generalizing combos with
  | nil => trivial
  | cons l layers ih =>
    obtain ⟨hl, hrest⟩ := List.forall_mem_cons.mp hlayers
    rw [drawLayers]
    apply (labelLayer_fails hl).bind
    intro labels _
    apply (addChords_fails hl combos).bind
    intro combos' _
    exact (ih combos' hrest).bind fun _ _ => trivial

theorem build_fails (m : Keymap) : Meets (m.Fails .diagram) (fun _ => True) (build m) := by
  unfold build
  apply Meets.bind (Q := fun _ => True) (Meets.of_error fun d => .required)
  intro keyboard _
  exact (drawLayers_fails [] fun _ hl => hl).bind fun _ _ => trivial

end Diagram

/-! ## 3. Every target -/

theorem Target.emit_fails (t : Target) (m : Keymap) :
    Meets (m.Fails t.backend) (fun _ => True) (t.emit m) := by
  cases t with
  | firmware => exact (Firmware.Table.build_fails m).map _ fun _ _ => trivial
  | diagram => exact (Diagram.build_fails m).map _ fun _ _ => trivial
  | format =>
    have hformat : Meets (m.Fails .formatter) (fun _ => True) (Format.format m) := by
      unfold Format.format
      exact Meets.bind (Q := fun _ => True) (Meets.of_error fun d => .number) fun _ _ => trivial
    exact hformat.map _ fun _ _ => trivial

end Keyplan
