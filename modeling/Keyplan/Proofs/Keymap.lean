import Keyplan.Compilation
import Keyplan.Proofs.Grammar.Soundness
import Keyplan.Proofs.Layer.Placement

/-!
# Loaded keymaps — what holds of a keymap that was read

What the backends rely on: a well-formed layout with at least one column, and layers that lie on
its keys.
-/

namespace Keyplan

open Outcome

theorem Description.layout_items_ne_nil {source : Text} {d : Description}
    (h : Description.parse source = .ok d) : ∀ node ∈ d.layout.rows, node.items ≠ [] := by
  obtain ⟨f, rows, -, -, htree⟩ := Parser.description_sound h
  have hrows : d.layout.rows.map LayoutRow.unlocated =
      rows.map fun r => { items := r.items.map Grammar.Cell.tree } :=
    congrArg (·.layout.rows) htree
  intro node hnode hnil
  have hmem : node.unlocated ∈ d.layout.rows.map LayoutRow.unlocated :=
    List.mem_map_of_mem hnode
  rw [hrows] at hmem
  obtain ⟨r, -, hr⟩ := List.mem_map.mp hmem
  have hitems := congrArg LayoutRow.items hr
  simp [LayoutRow.unlocated, hnil, Grammar.Row.items] at hitems

namespace Keymap

/-- What holds of every keymap that was read. -/
structure WellFormed (m : Keymap) : Prop where
  layout : m.layout.WellFormed
  width_pos : 0 < m.layout.width
  height_pos : 0 < m.layout.height
  /-- The layers are those of the description, in order. -/
  layers : m.description.layers.mapM (Layer.resolve m.layout) = .ok m.layers
  /-- No two layers have the same name. -/
  names : Layer.checkNames [] m.description.layers = .ok ()

theorem resolve_eq_ok {d : Description} {defaults : List DefaultOption} {m : Keymap}
    (h : resolve d defaults = .ok m) :
    m.description = d ∧ Layout.resolve d.layout = .ok m.layout ∧
      Layer.resolveAll m.layout d.layers = .ok m.layers := by
  unfold resolve at h
  obtain ⟨options, -, h⟩ := bind_eq_ok_iff.mp h
  obtain ⟨customKeys, -, h⟩ := bind_eq_ok_iff.mp h
  obtain ⟨layout, hlayout, h⟩ := bind_eq_ok_iff.mp h
  obtain ⟨layers, hlayers, h⟩ := bind_eq_ok_iff.mp h
  obtain rfl := pure_eq_ok_iff.mp h
  exact ⟨rfl, hlayout, hlayers⟩

theorem wellFormed_of_read {source : Text} {defaults : List DefaultOption} {m : Keymap}
    (h : Keymap.read source defaults = .ok m) : m.WellFormed := by
  unfold Keymap.read at h
  obtain ⟨d, hd, h⟩ := bind_eq_ok_iff.mp h
  obtain ⟨rfl, hlayout, hlayers⟩ := resolve_eq_ok h
  obtain ⟨hnames, hlayers⟩ := Layer.resolveAll_eq_ok_iff.mp hlayers
  obtain ⟨hwf, hne, -, -⟩ := Layout.resolve_eq_ok hlayout
  exact ⟨hwf, Layout.width_pos hlayout (Description.layout_items_ne_nil hd),
    List.length_pos_iff.mpr hne, hlayers, hnames⟩

namespace WellFormed

variable {m : Keymap}

/-- Every layer is resolved from the layer block in its place. -/
theorem exists_block (hm : m.WellFormed) {n : Nat} {l : Layer} (hl : m.layers[n]? = some l) :
    ∃ b, m.description.layers[n]? = some b ∧ Layer.resolve m.layout b = .ok l := by
  have hlt := (List.getElem?_eq_some_iff.mp hl).1
  rw [length_of_mapM hm.layers] at hlt
  have hblock := List.getElem?_eq_getElem hlt
  obtain ⟨l', hl', hresolve⟩ := mapM_getElem? hm.layers hblock
  obtain rfl := Option.some.inj (hl.symm.trans hl')
  exact ⟨_, hblock, hresolve⟩

theorem placedOn (hm : m.WellFormed) {l : Layer} (hl : l ∈ m.layers) : l.PlacedOn m.layout := by
  obtain ⟨n, hn⟩ := List.getElem?_of_mem hl
  obtain ⟨b, -, hresolve⟩ := hm.exists_block hn
  exact Layer.placedOn_of_resolve hresolve

theorem layerNames_eq (hm : m.WellFormed) :
    m.layerNames = m.description.layers.map (·.name) :=
  (map_of_mapM hm.layers fun _ _ hresolve => (Layer.resolve_eq_ok_iff.mp hresolve).1.symm).symm

theorem layerNames_nodup (hm : m.WellFormed) : m.layerNames.Nodup := by
  rw [hm.layerNames_eq]
  exact Layer.nodup_of_checkNames [] hm.names List.nodup_nil

end WellFormed

end Keymap

end Keyplan
