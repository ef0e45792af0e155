import Keyplan.Proofs.Keymap.Faults
import Mathlib.Data.List.Forall2

/-!
# References — the actions of a table say what the keys say

A reference to a layer is looked up in the names of the layers, and the number that is found is used
as a place in the table. Both are in one order, so the number is in range, and the layer there has
the name that was written. A key with a second meaning becomes a hold-tap action, and no other key
does.
-/

namespace Keyplan

open Outcome

theorem Keymap.resolveLayer_eq_ok {m : Keymap} {name : String} {span : Span} {i : Nat}
    (h : m.resolveLayer name span = .ok i) : m.layerNames[i]? = some name := by
  unfold resolveLayer at h
  cases hindex : m.layerIndex? name with
  | none =>
    rw [hindex] at h
    cases h
  | some j =>
    rw [hindex] at h
    obtain rfl : j = i := Except.ok.inj h
    obtain ⟨hlt, hname, -⟩ := List.idxOf?_eq_some_iff.mp hindex
    rw [List.getElem?_eq_getElem hlt, hname]

namespace Firmware

/-! ## 1. Actions of keys -/

/-- The action of a plain key: a layer of the table that has the name in the reference, or an action
without a layer for a key that is no reference. -/
def Refers (t : Table) (p : PlainKey) : Action → Prop
  | .layer index => ∃ (i : Nat) (name : String), index = i ∧ i < t.layers.length ∧
      p.meaning = .layer name ∧ t.layerNames[i]? = some name
  | .holdTap .. => False
  | _ => ∀ name, p.meaning ≠ .layer name

/-- The action of a key. A hold-tap action stands for a key with a second meaning, and its timeout
is the one of the key, unless that is zero. -/
def Stands (t : Table) (timeout : Int) (k : Key) : Action → Prop
  | .holdTap timeout' hold tap config _ => ∃ h, k.hold = some h ∧ Refers t k.tap tap ∧
      Refers t h.key hold ∧ (config = .holdOnOtherKeyPress ↔ h.style = .onOtherKeyPress) ∧
      timeout' = if 0 < h.timeout then (h.timeout : Int) else timeout
  | action => k.hold = none ∧ Refers t k.tap action

theorem Refers.stands {t : Table} {timeout : Int} {k : Key} {action : Action}
    (h : Refers t k.tap action) (hhold : k.hold = none) : Stands t timeout k action := by
  cases action with
  | holdTap timeout' hold tap config interval => exact absurd h id
  | _ => exact ⟨hhold, h⟩

theorem refers_charAction {t : Table} {p : PlainKey} (hp : ∀ name, p.meaning ≠ .layer name)
    (key : CharKey) : Refers t p (Binder.charAction key) := by
  unfold Binder.charAction
  split
  · exact hp
  · exact hp

theorem refers_nameAction {t : Table} {p : PlainKey} (hp : ∀ name, p.meaning ≠ .layer name)
    (meaning : Keymap.KeyMeaning) : Refers t p (Binder.nameAction meaning) := by
  cases meaning with
  | custom output => exact hp
  | named key =>
    show Refers t p (if key.isNoOp then .noOp else .keyCode key.code)
    split
    · exact hp
    · exact hp

section Binding

variable {b : Binder} {t : Table}

theorem Binder.bindPlain_refers (hnames : t.layerNames = b.keymap.layerNames)
    (hlayers : t.layers.length = t.layerNames.length) {p : PlainKey} {action : Action}
    (h : b.bindPlain p = .ok action) : Refers t p action := by
  unfold Binder.bindPlain at h
  cases hmeaning : p.meaning with
  | layer name =>
    rw [hmeaning] at h
    obtain ⟨i, hi, h⟩ := bind_eq_ok_iff.mp h
    obtain rfl := pure_eq_ok_iff.mp h
    have hname := Keymap.resolveLayer_eq_ok hi
    rw [← hnames] at hname
    have hlt := (List.getElem?_eq_some_iff.mp hname).1
    exact ⟨i, name, rfl, hlayers ▸ hlt, hmeaning, hname⟩
  | char c quote =>
    rw [hmeaning] at h
    obtain ⟨key, -, h⟩ := bind_eq_ok_iff.mp h
    obtain rfl := pure_eq_ok_iff.mp h
    apply refers_charAction
    rw [hmeaning]
    exact nofun
  | named name =>
    rw [hmeaning] at h
    obtain ⟨meaning, -, h⟩ := bind_eq_ok_iff.mp h
    obtain rfl := pure_eq_ok_iff.mp h
    apply refers_nameAction
    rw [hmeaning]
    exact nofun

theorem Binder.bind_stands (hnames : t.layerNames = b.keymap.layerNames)
    (hlayers : t.layers.length = t.layerNames.length) {k : Key} {action : Action}
    (h : b.bind k = .ok action) : Stands t b.timeout k action := by
  unfold Binder.bind at h
  obtain ⟨tap, htap, h⟩ := bind_eq_ok_iff.mp h
  have htap := bindPlain_refers hnames hlayers htap
  cases hhold : k.hold with
  | none =>
    rw [hhold] at h
    obtain rfl := pure_eq_ok_iff.mp h
    exact htap.stands hhold
  | some held =>
    rw [hhold] at h
    obtain ⟨hold, hheld, h⟩ := bind_eq_ok_iff.mp h
    obtain rfl := pure_eq_ok_iff.mp h
    refine ⟨held, hhold, htap, bindPlain_refers hnames hlayers hheld, ?_, ?_⟩
    · cases held.style with
      | permissive => decide
      | onOtherKeyPress => decide
    · by_cases hzero : held.timeout = 0
      · rw [if_pos hzero, if_neg (by omega)]
      · rw [if_neg hzero, if_pos (by omega)]

end Binding

/-! ## 2. Tables -/

namespace Table

theorem mem_grid {rows width : Nat} {bound : OrderedMap MatrixPos Action} {row : List Action}
    (hrow : row ∈ grid rows width bound) {action : Action} (haction : action ∈ row) :
    action = .noOp ∨ ∃ pos, (pos, action) ∈ bound := by
  obtain ⟨i, -, rfl⟩ := List.mem_map.mp hrow
  obtain ⟨j, -, rfl⟩ := List.mem_map.mp haction
  cases hcell : OrderedMap.get? (bound.filter fun e => e.1.row == i) ⟨j, i⟩ with
  | none => exact .inl rfl
  | some action =>
    have hmem := OrderedMap.mem_of_get? hcell
    exact .inr ⟨_, (List.mem_filter.mp hmem).1⟩

/-- Whatever stands in a cell of a table does nothing, or is bound from a key of the layer. -/
theorem build_bound {m : Keymap} {t : Table} (h : build m = .ok t) :
    ∃ b, Binder.ofKeymap m = .ok b ∧ t.layerNames = m.layerNames ∧
      t.layers.length = m.layers.length ∧
      ∀ (i : Nat) (g : List (List Action)), t.layers[i]? = some g →
        ∃ l, m.layers[i]? = some l ∧ ∀ row ∈ g, ∀ action ∈ row,
          action = .noOp ∨ ∃ k ∈ l.bindings, b.bind k = .ok action := by
  obtain ⟨b, bounds, a, hb, hbind, rfl⟩ := build_eq_ok h
  obtain ⟨rfl, -⟩ := Binder.ofKeymap_eq_ok hb
  have hmeets := bindLayers_meets (b := b)
    { width := b.keymap.layout.width, height := b.keymap.layout.height } fun l hl => hl
  rw [hbind] at hmeets
  obtain ⟨hlength, hbound⟩ := List.forall₂_iff_get.mp hmeets
  refine ⟨b, hb, rfl, (List.length_map _).trans hlength.symm, ?_⟩
  intro i g hg
  rw [List.getElem?_map] at hg
  obtain ⟨bound, hi, rfl⟩ := Option.map_eq_some_iff.mp hg
  obtain ⟨hlt, rfl⟩ := List.getElem?_eq_some_iff.mp hi
  have hlt' : i < b.keymap.layers.length := hlength ▸ hlt
  refine ⟨b.keymap.layers[i], List.getElem?_eq_getElem hlt', ?_⟩
  intro row hrow action haction
  rcases mem_grid hrow haction with hnone | ⟨pos, hmem⟩
  · exact .inl hnone
  · exact .inr (hbound i hlt' hlt _ hmem)

/-- The keys and the chords of layer `l` stand in grid `i` of a table, each with its action, and
the other cells of the grid do nothing. -/
structure StandsIn (t : Table) (timeout : Int) (i : Nat) (l : Layer) : Prop where
  key : ∀ k ∈ l.keys, ∃ action,
    t.action? i k.matrix.row k.matrix.col = some action ∧ Stands t timeout k.key action
  chord : ∀ c ∈ l.chords, ∃ pos action, (c.pair, pos) ∈ t.chords ∧
    t.action? i pos.row pos.col = some action ∧ Stands t timeout c.chord.key action
  other : ∀ pos : MatrixPos, pos.row < t.rows → pos.col < t.width →
    (∀ k ∈ l.keys, k.matrix ≠ pos) → (∀ c ∈ l.chords, (c.pair, pos) ∉ t.chords) →
      t.action? i pos.row pos.col = some .noOp

/-- A table has one grid for each of its layer names. What stands in a cell does nothing, or is the
action of a key of the layer: a reference in it, also one inside a hold-tap action, is the place of
a layer with the name that was written. Hold-tap actions are those of keys with a second meaning;
the style of the key says when it is chosen, and the key says after how long, or else the option in
force does. In the table of a keymap that was read, all keys and chords stand where they belong. -/
theorem build_refers {m : Keymap} {t : Table} (h : build m = .ok t) :
    t.layers.length = t.layerNames.length ∧
    ∃ timeout,
      m.options.number .firmware "hold_tap_timeout" Binder.defaultTimeout = .ok timeout ∧
      (∀ (i : Nat) (g : List (List Action)), t.layers[i]? = some g →
        ∃ l, m.layers[i]? = some l ∧ ∀ row ∈ g, ∀ action ∈ row,
          action = .noOp ∨ ∃ k ∈ l.bindings, Stands t timeout k action) ∧
      ∀ source defaults, Keymap.read source defaults = .ok m →
        ∀ (i : Nat) (l : Layer), m.layers[i]? = some l → StandsIn t timeout i l := by
  obtain ⟨b, hb, hnames, hlength, hbound⟩ := build_bound h
  obtain ⟨hkeymap, htimeout⟩ := Binder.ofKeymap_eq_ok hb
  have hlayers : t.layers.length = t.layerNames.length := by
    rw [hlength, hnames, Keymap.layerNames, List.length_map]
  have hstands : ∀ {k action}, b.bind k = .ok action → Stands t b.timeout k action := by
    intro k action hbind
    exact b.bind_stands (hkeymap ▸ hnames) hlayers hbind
  refine ⟨hlayers, b.timeout, htimeout, ?_, ?_⟩
  · intro i g hg
    obtain ⟨l, hl, hcells⟩ := hbound i g hg
    refine ⟨l, hl, ?_⟩
    intro row hrow action haction
    rcases hcells row hrow action haction with hnone | ⟨k, hk, hbind⟩
    · exact .inl hnone
    · exact .inr ⟨k, hk, hstands hbind⟩
  · intro source defaults hread i l hl
    obtain ⟨-, -, -, -, -, b', hb', hshows⟩ := build_shows_layers hread h
    obtain rfl : b = b' := Except.ok.inj (hb.symm.trans hb')
    have hshow := hshows i l hl
    constructor
    case key =>
      intro k hk
      obtain ⟨-, -, action, hbind, haction⟩ := hshow.key k hk
      exact ⟨action, haction, hstands hbind⟩
    case chord =>
      intro c hc
      obtain ⟨pos, action, hslot, -, -, -, hbind, haction⟩ := hshow.chord c hc
      have hmem : (c.pair, pos) ∈ t.chords := by
        apply List.mem_of_mem_filter
        rw [hslot]
        exact List.mem_singleton_self _
      exact ⟨pos, action, hmem, haction, hstands hbind⟩
    case other => exact hshow.other

/-- A layer that refers to the layer after it, from a second meaning and from a chord, and to
itself. -/
def forwardReferences : Text :=
  Text.ofString ("layout \x7b 2k; \x7d layer base \x7b 'a'@~[nav][120] >[nav]< 'b'@[base]; \x7d " ++
    "layer nav \x7b 'c' 'd'; \x7d")

def forwardActions : List Action :=
  [.holdTap 120 (.layer 1) (.keyCode "A") .holdOnOtherKeyPress 200,
   .holdTap 400 (.layer 0) (.keyCode "B") .permissiveHold 200,
   .layer 1]

theorem build_refers_forwardReferences : ∃ m t l, Keymap.read forwardReferences [] = .ok m ∧
    build m = .ok t ∧ m.layers[0]? = some l ∧ t.layerNames = ["base", "nav"] ∧
    t.layers.length = 2 ∧ StandsIn t 400 0 l ∧
    [t.action? 0 0 0, t.action? 0 0 1, t.action? 0 1 0] = forwardActions.map some := by
  have hrun : ((Keymap.read forwardReferences []).toOption.bind fun m =>
      (build m).toOption.bind fun t => m.layers[0]?.map fun _ =>
        ((m.options.number .firmware "hold_tap_timeout" Binder.defaultTimeout).toOption,
          t.layerNames, [t.action? 0 0 0, t.action? 0 0 1, t.action? 0 1 0])) =
      some (some 400, ["base", "nav"], forwardActions.map some) := by
    decide +kernel
  obtain ⟨m, hm, hrun⟩ := Option.bind_eq_some_iff.mp hrun
  obtain ⟨t, ht, hrun⟩ := Option.bind_eq_some_iff.mp hrun
  obtain ⟨l, hl, hrun⟩ := Option.map_eq_some_iff.mp hrun
  simp only [Prod.mk.injEq] at hrun
  obtain ⟨hforce, hnames, hactions⟩ := hrun
  have hread := toOption_eq_some_iff.mp hm
  have hbuild := toOption_eq_some_iff.mp ht
  obtain ⟨hlength, timeout, htimeout, -, hstands⟩ := build_refers hbuild
  obtain rfl : timeout = 400 :=
    Except.ok.inj (htimeout.symm.trans (toOption_eq_some_iff.mp hforce))
  exact ⟨m, t, l, hread, hbuild, hl, hnames, hlength.trans (congrArg List.length hnames),
    hstands forwardReferences [] hread 0 l hl, hactions⟩

end Table

end Firmware

end Keyplan
