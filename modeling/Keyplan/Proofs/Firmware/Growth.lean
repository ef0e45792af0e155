import Keyplan.Proofs.Firmware.Table
import Keyplan.Proofs.Keymap.Backends

/-!
# Growth — a further layer disturbs no other one

Slots are handed out over all layers, and grids are cut when all slots are known. Both go through
the layers in order, so a layer that is added behind the others leaves them the slots they had, and
the rows its own slots may need are empty on them.
-/

namespace Keyplan

open Outcome

theorem Grammar.File.layouts_append_layer (f : File) (name : String) (rows : List (Row Item)) :
    File.layouts (f ++ [.layer name rows]) = f.layouts := by
  simp [File.layouts, Block.layout?]

theorem Grammar.File.tree_append_layer (f : File) (layout : List (Row Cell)) (name : String)
    (rows : List (Row Item)) :
    File.tree (f ++ [.layer name rows]) layout =
      { f.tree layout with layers := (f.tree layout).layers ++ [layerTree name rows] } := by
  simp [File.tree]

/-! ## 1. Keymaps with a further layer -/

namespace Keymap

/-- The second keymap is the first one with a further layer. -/
structure Adds (m m' : Keymap) : Prop where
  layout : m'.layout = m.layout
  options : m'.options = m.options
  customKeys : m'.customKeys = m.customKeys
  layers : ∃ l, m'.layers = m.layers ++ [l]

variable {m m' : Keymap}

theorem adds_of_resolve {d : Description} {block : LayerBlock} {defaults : List DefaultOption}
    (h : resolve d defaults = .ok m)
    (h' : resolve { d with layers := d.layers ++ [block] } defaults = .ok m') : m.Adds m' := by
  unfold resolve at h h'
  obtain ⟨options, hoptions, h⟩ := bind_eq_ok_iff.mp h
  obtain ⟨customKeys, hkeys, h⟩ := bind_eq_ok_iff.mp h
  obtain ⟨layout, hlayout, h⟩ := bind_eq_ok_iff.mp h
  obtain ⟨layers, hlayers, h⟩ := bind_eq_ok_iff.mp h
  -- All but the layers is resolved from the same blocks.
  simp only [hoptions, hkeys, hlayout, ok_bind] at h'
  obtain ⟨layers', hlayers', h'⟩ := bind_eq_ok_iff.mp h'
  obtain rfl := pure_eq_ok_iff.mp h
  obtain rfl := pure_eq_ok_iff.mp h'
  have hmap := (Layer.resolveAll_eq_ok_iff.mp hlayers).2
  have hmap' := (Layer.resolveAll_eq_ok_iff.mp hlayers').2
  rw [List.mapM_append, hmap, ok_bind, List.mapM_cons, List.mapM_nil] at hmap'
  obtain ⟨more, hmore, hmap'⟩ := bind_eq_ok_iff.mp hmap'
  obtain ⟨l, -, hmore⟩ := bind_eq_ok_iff.mp hmore
  obtain rfl := pure_eq_ok_iff.mp hmore
  exact ⟨rfl, rfl, rfl, l, (pure_eq_ok_iff.mp hmap').symm⟩

theorem WellFormed.forget (hm : m.WellFormed) (f : PlainKey.Meaning → PlainKey.Meaning) :
    (m.forget f).WellFormed := by
  have hlayers := Tracks.mapM m.description.layers fun block _ =>
    Layer.resolve_tracks (E := fun _ _ => True) (f := f) (fun _ => trivial)
      (fun _ _ _ _ => trivial) m.layout block
  have hnames := Layer.checkNames_tracks (E := fun _ _ => True) (f := f) (fun _ => trivial)
    m.description.layers []
  exact ⟨hm.layout, hm.width_pos, hm.height_pos, hlayers.of_ok hm.layers, hnames.of_ok hm.names⟩

namespace Adds

theorem layerNames_prefix (h : m.Adds m') : m.layerNames <+: m'.layerNames := by
  obtain ⟨l, hl⟩ := h.layers
  unfold layerNames
  rw [hl, List.map_append]
  exact List.prefix_append _ _

theorem resolveLayer (h : m.Adds m') {name : String} {span : Span} {i : Nat}
    (hi : m.resolveLayer name span = .ok i) : m'.resolveLayer name span = .ok i := by
  unfold Keymap.resolveLayer at hi ⊢
  obtain ⟨more, hmore⟩ := h.layerNames_prefix
  cases hindex : m.layerIndex? name with
  | none =>
    rw [hindex] at hi
    cases hi
  | some j =>
    have hindex' : m'.layerIndex? name = some j := by
      unfold layerIndex? List.idxOf? at hindex ⊢
      rw [← hmore, List.findIdx?_append, hindex]
      rfl
    rw [hindex] at hi
    rw [hindex']
    exact hi

theorem resolveName (h : m.Adds m') (b : Backend) (name : String) (span : Span) :
    m'.resolveName b name span = m.resolveName b name span := by
  unfold Keymap.resolveName unknownKey keyNames
  rw [h.customKeys]

end Adds

end Keymap

/-! ## 2. Binding -/

namespace Firmware

namespace Binder

variable {b : Binder} {m' : Keymap}

theorem ofKeymap_adds {m : Keymap} (h : m.Adds m') (hb : ofKeymap m = .ok b) :
    b.keymap = m ∧ ofKeymap m' = .ok { b with keymap := m' } := by
  unfold ofKeymap at hb ⊢
  rw [h.options]
  obtain ⟨timeout, htimeout, hb⟩ := bind_eq_ok_iff.mp hb
  obtain ⟨interval, hinterval, hb⟩ := bind_eq_ok_iff.mp hb
  obtain rfl := pure_eq_ok_iff.mp hb
  rw [htimeout, hinterval]
  exact ⟨rfl, rfl⟩

theorem bindPlain_adds (h : b.keymap.Adds m') {k : PlainKey} {action : Action}
    (hk : b.bindPlain k = .ok action) :
    Binder.bindPlain { b with keymap := m' } k = .ok action := by
  unfold bindPlain at hk ⊢
  cases hmeaning : k.meaning with
  | layer name =>
    rw [hmeaning] at hk
    obtain ⟨i, hi, hk⟩ := bind_eq_ok_iff.mp hk
    show (m'.resolveLayer name k.span >>= _) = _
    rw [h.resolveLayer hi]
    exact hk
  | char c quote =>
    rw [hmeaning] at hk
    exact hk
  | named name =>
    rw [hmeaning] at hk
    show (m'.resolveName .firmware name k.span >>= _) = _
    rw [h.resolveName]
    exact hk

theorem bind_adds (h : b.keymap.Adds m') {k : Key} {action : Action} (hk : b.bind k = .ok action) :
    Binder.bind { b with keymap := m' } k = .ok action := by
  unfold Binder.bind at hk ⊢
  obtain ⟨tap, htap, hk⟩ := bind_eq_ok_iff.mp hk
  rw [bindPlain_adds h htap, ok_bind]
  cases hhold : k.hold with
  | none =>
    rw [hhold] at hk
    exact hk
  | some held =>
    rw [hhold] at hk
    obtain ⟨hold, hheld, hk⟩ := bind_eq_ok_iff.mp hk
    show (Binder.bindPlain { b with keymap := m' } held.key >>= _) = _
    rw [bindPlain_adds h hheld]
    exact hk

end Binder

namespace Table

variable {b : Binder} {m' : Keymap} {a a' : Allocator ChordPair}

theorem bindAt_adds (h : b.keymap.Adds m') (entry : MatrixPos × Key) (bound : MatrixPos × Action)
    (hbind : bindAt b entry = .ok bound) : bindAt { b with keymap := m' } entry = .ok bound := by
  rw [bindAt_eq_ok_iff] at hbind ⊢
  exact ⟨hbind.1, Binder.bind_adds h hbind.2⟩

theorem bindLayer_adds (h : b.keymap.Adds m') {l : Layer} {bound : OrderedMap MatrixPos Action}
    (hbind : bindLayer b a l = .ok (bound, a')) :
    bindLayer { b with keymap := m' } a l = .ok (bound, a') := by
  unfold bindLayer at hbind ⊢
  obtain ⟨⟨chordKeys, a₁⟩, hplace, hbind⟩ := bind_eq_ok_iff.mp hbind
  obtain ⟨keys, hkeys, hbind⟩ := bind_eq_ok_iff.mp hbind
  obtain ⟨chords, hchords, hbind⟩ := bind_eq_ok_iff.mp hbind
  rw [hplace, ok_bind]
  dsimp only
  rw [mapM_of_ok (bindAt_adds h) hkeys, ok_bind, mapM_of_ok (bindAt_adds h) hchords]
  exact hbind

/-- The layers of a keymap are bound as they are, and the further layer behind them. -/
theorem bindLayers_adds (h : b.keymap.Adds m') (l : Layer) (layers : List Layer)
    {bounds bounds' : List (OrderedMap MatrixPos Action)} {a₀ : Allocator ChordPair}
    (hbind : bindLayers b a₀ layers = .ok (bounds, a))
    (hbind' : bindLayers { b with keymap := m' } a₀ (layers ++ [l]) = .ok (bounds', a')) :
    ∃ bound, bounds' = bounds ++ [bound] ∧
      bindLayer { b with keymap := m' } a l = .ok (bound, a') := by
  induction layers generalizing a₀ bounds bounds' with
  | nil =>
    obtain ⟨rfl, rfl⟩ := Prod.mk.inj (Except.ok.inj hbind)
    rw [List.nil_append, bindLayers] at hbind'
    obtain ⟨⟨bound, a₁⟩, hlast, hbind'⟩ := bind_eq_ok_iff.mp hbind'
    obtain ⟨rfl, rfl⟩ := Prod.mk.inj (Except.ok.inj hbind')
    exact ⟨bound, rfl, hlast⟩
  | cons first layers ih =>
    rw [bindLayers] at hbind
    obtain ⟨⟨bound₁, a₁⟩, hfirst, hbind⟩ := bind_eq_ok_iff.mp hbind
    obtain ⟨⟨others, a₂⟩, hrest, hbind⟩ := bind_eq_ok_iff.mp hbind
    obtain ⟨rfl, rfl⟩ := Prod.mk.inj (pure_eq_ok_iff.mp hbind)
    rw [List.cons_append, bindLayers, bindLayer_adds h hfirst, ok_bind] at hbind'
    obtain ⟨⟨others', a₃⟩, hrest', hbind'⟩ := bind_eq_ok_iff.mp hbind'
    obtain ⟨rfl, rfl⟩ := Prod.mk.inj (pure_eq_ok_iff.mp hbind')
    obtain ⟨bound, rfl, hlast⟩ := ih hrest hrest'
    exact ⟨bound, rfl, hlast⟩

/-- What was bound for a layer stays bound for it, and lies in the rows there are without the
further layer. -/
theorem bindLayers_keeps (hm : b.keymap.WellFormed) (hm' : m'.WellFormed) (h : b.keymap.Adds m')
    {bounds bounds' : List (OrderedMap MatrixPos Action)}
    (hbind : bindLayers b { width := b.keymap.layout.width, height := b.keymap.layout.height }
      b.keymap.layers = .ok (bounds, a))
    (hbind' : bindLayers { b with keymap := m' }
      { width := b.keymap.layout.width, height := b.keymap.layout.height } m'.layers =
        .ok (bounds', a')) :
    a.extraRows ≤ a'.extraRows ∧ a.slots <+: a'.slots ∧
      ∀ i < b.keymap.layers.length, ∃ bound, bounds[i]? = some bound ∧
        bounds'[i]? = some bound ∧ ∀ pos ∈ OrderedMap.keys bound,
          pos.row < b.keymap.layout.height + a.extraRows := by
  obtain ⟨l, hl⟩ := h.layers
  rw [hl] at hbind'
  obtain ⟨last, rfl, hlast⟩ := bindLayers_adds h l b.keymap.layers hbind hbind'
  have hplaced : l.PlacedOn b.keymap.layout := by
    rw [← h.layout]
    apply hm'.placedOn
    rw [hl]
    exact List.mem_append_right _ List.mem_cons_self
  obtain ⟨ha, -, hlen, hbinds⟩ := bindLayers_eq_ok hm.width_pos hm.layout b.keymap.layers
    (fun l hl => hm.placedOn hl) hbind (Allocator.counted_empty _ _)
  obtain ⟨ha', hslots, -⟩ := bindLayer_eq_ok hm.width_pos hm.layout hplaced hlast ha
  refine ⟨ha.extraRows_le hm.width_pos ha' hslots, hslots, ?_⟩
  intro i hi
  obtain ⟨bound, hbound, hlayer⟩ := hbinds i _ (List.getElem?_eq_getElem hi)
  refine ⟨bound, hbound, ?_, fun pos hpos => ?_⟩
  · rw [List.getElem?_append_left (by omega), hbound]
  · have hbounds := hlayer.bounds hm.width_pos hm.layout (hm.placedOn (List.getElem_mem hi)) ha
    exact (hbounds pos hpos).1

/-! ## 3. Tables -/

/-- The second table has what the first one has, where the first one has it. It may have more rows,
and these do nothing on the layers of the first. -/
structure Keeps (t t' : Table) : Prop where
  width_eq : t'.width = t.width
  rows_le : t.rows ≤ t'.rows
  layerNames : t.layerNames <+: t'.layerNames
  chords : t.chords <+: t'.chords
  cell : ∀ i row col : Nat, i < t.layerNames.length → row < t.rows → col < t.width →
    ∃ action, t.action? i row col = some action ∧ t'.action? i row col = some action
  below : ∀ i row col : Nat, i < t.layerNames.length → t.rows ≤ row → row < t'.rows →
    col < t.width → t'.action? i row col = some .noOp

theorem action?_of_grids {t : Table} {bounds : List (OrderedMap MatrixPos Action)}
    (ht : t.layers = bounds.map (grid t.rows t.width)) {i row col : Nat}
    {bound : OrderedMap MatrixPos Action} (hbound : bounds[i]? = some bound) (hrow : row < t.rows)
    (hcol : col < t.width) :
    t.action? i row col = some ((bound.get? ⟨col, row⟩).getD .noOp) := by
  have hrow' : (⟨col, row⟩ : MatrixPos).row < t.rows := hrow
  rw [action?_eq t i ⟨col, row⟩, ht, List.getElem?_map, hbound]
  exact grid_cell hrow' hcol

theorem keeps_of_adds {m m' : Keymap} (hm : m.WellFormed) (hm' : m'.WellFormed) (h : m.Adds m')
    {t t' : Table} (hbuild : build m = .ok t) (hbuild' : build m' = .ok t') : Keeps t t' := by
  obtain ⟨b, bounds, a, hb, hbind, rfl⟩ := build_eq_ok hbuild
  obtain ⟨b', bounds', a', hb', hbind', rfl⟩ := build_eq_ok hbuild'
  obtain ⟨rfl, hadds⟩ := Binder.ofKeymap_adds h hb
  obtain rfl := Except.ok.inj (hadds.symm.trans hb')
  simp only [h.layout] at hbind' ⊢
  obtain ⟨hrows, hslots, hlayer⟩ := bindLayers_keeps hm hm' h hbind hbind'
  rw [← List.length_map (f := Layer.name)] at hlayer
  constructor
  · rfl
  · exact Nat.add_le_add_left hrows _
  · exact h.layerNames_prefix
  · exact hslots
  · intro i row col hi hrow hcol
    obtain ⟨bound, hbound, hbound', -⟩ := hlayer i hi
    refine ⟨_, action?_of_grids rfl hbound hrow hcol, action?_of_grids rfl hbound' ?_ hcol⟩
    exact Nat.lt_of_lt_of_le hrow (Nat.add_le_add_left hrows _)
  · intro i row col hi hge hrow hcol
    obtain ⟨bound, -, hbound', hends⟩ := hlayer i hi
    have hnone : bound.get? ⟨col, row⟩ = none := by
      apply OrderedMap.get?_eq_none_iff.mpr
      intro hmem
      have hlt := hends _ hmem
      exact Nat.not_lt.mpr hge hlt
    rw [action?_of_grids rfl hbound' hrow hcol, hnone]
    rfl

/-- A source with a further layer at its end has the table of the source without it, as far as that
one goes. The name of the layer is a new one, as every source that can be read names its layers
apart. -/
theorem build_keeps {source source' : Text} {defaults : List DefaultOption} {m m' : Keymap}
    {t t' : Table} {name : String} {rows : List (Grammar.Row Grammar.Item)}
    (hread : Keymap.read source defaults = .ok m) (hbuild : build m = .ok t)
    (hread' : Keymap.read source' defaults = .ok m') (hbuild' : build m' = .ok t')
    (hmore : Parser.kinds (TokenStream.ofText source').tokens =
      Parser.kinds (TokenStream.ofText source).tokens ++ (Grammar.Block.layer name rows).kinds) :
    Keeps t t' := by
  have hm := Keymap.wellFormed_of_read hread
  have hm' := Keymap.wellFormed_of_read hread'
  obtain ⟨d, hd, hresolve⟩ := bind_eq_ok_iff.mp hread
  obtain ⟨d', hd', hresolve'⟩ := bind_eq_ok_iff.mp hread'
  obtain ⟨f, layout, hf, hlayout, htree⟩ := Parser.description_sound hd
  obtain ⟨f', layout', hf', hlayout', htree'⟩ := Parser.description_sound hd'
  -- A file has one derivation, so the second one is the first with the block.
  have hfile : f' = f ++ [.layer name rows] := by
    apply Grammar.File.kinds_inj
    rw [← hf', hmore, hf]
    simp [Grammar.File.kinds]
  rw [hfile, Grammar.File.layouts_append_layer, hlayout, List.singleton_inj] at hlayout'
  rw [hfile, ← hlayout', Grammar.File.tree_append_layer, ← htree] at htree'
  -- Places differ between the two, so both are compared without them.
  have htracks := fun d => Keymap.resolve_tracks (E := fun _ _ => True) (f := id)
    (fun _ => trivial) (fun _ _ _ _ => trivial) d defaults
  have hplain := (htracks d).of_ok hresolve
  have hplain' := (htracks d').of_ok hresolve'
  rw [show d'.forget id = _ from htree'] at hplain'
  have hbuilds := fun m => build_tracks (E := fun _ _ => True) (f := id) (fun _ => trivial)
    (fun _ => rfl) m
  exact keeps_of_adds (hm.forget id) (hm'.forget id) (Keymap.adds_of_resolve hplain hplain')
    ((hbuilds m).of_ok hbuild) ((hbuilds m').of_ok hbuild')

/-- A layer whose two chords fill the row below the matrix. -/
def oneLayer : String :=
  "layout \x7b 2k; 2k; 2k; \x7d layer a \x7b '1' >'2'< [a]; '3' >'4'< '5'; \x7d"

/-- A further layer, with a chord on another pair. -/
def twoLayers : String :=
  oneLayer ++ " layer b \x7b '1'; [a]; '6' >[b]< '7'; \x7d"

theorem build_keeps_oneLayer : ∃ m t m' t', Keymap.read (Text.ofString oneLayer) [] = .ok m ∧
    build m = .ok t ∧ Keymap.read (Text.ofString twoLayers) [] = .ok m' ∧ build m' = .ok t' ∧
    (t.rows, t.chords.length) = (4, 2) ∧ (t'.rows, t'.chords.length) = (5, 3) ∧ Keeps t t' := by
  have hrun : ((Keymap.read (Text.ofString oneLayer) []).toOption.bind fun m =>
      (build m).toOption.map fun t => (t.rows, t.chords.length)) = some (4, 2) := by
    decide +kernel
  have hrun' : ((Keymap.read (Text.ofString twoLayers) []).toOption.bind fun m =>
      (build m).toOption.map fun t => (t.rows, t.chords.length)) = some (5, 3) := by
    decide +kernel
  have hmore : Parser.kinds (TokenStream.ofText (Text.ofString twoLayers)).tokens =
      Parser.kinds (TokenStream.ofText (Text.ofString oneLayer)).tokens ++
        (Grammar.Block.layer "b" [⟨.key ⟨.character '1', none⟩, []⟩, ⟨.key ⟨.layer "a", none⟩, []⟩,
          ⟨.key ⟨.character '6', none⟩,
            [.chord ⟨.layer "b", none⟩, .key ⟨.character '7', none⟩]⟩]).kinds := by
    decide +kernel
  obtain ⟨m, hm, hrun⟩ := Option.bind_eq_some_iff.mp hrun
  obtain ⟨t, ht, hrows⟩ := Option.map_eq_some_iff.mp hrun
  obtain ⟨m', hm', hrun'⟩ := Option.bind_eq_some_iff.mp hrun'
  obtain ⟨t', ht', hrows'⟩ := Option.map_eq_some_iff.mp hrun'
  have hread := toOption_eq_some_iff.mp hm
  have hbuild := toOption_eq_some_iff.mp ht
  have hread' := toOption_eq_some_iff.mp hm'
  have hbuild' := toOption_eq_some_iff.mp ht'
  exact ⟨m, t, m', t', hread, hbuild, hread', hbuild', hrows, hrows',
    build_keeps hread hbuild hread' hbuild' hmore⟩

end Table

end Firmware

end Keyplan
