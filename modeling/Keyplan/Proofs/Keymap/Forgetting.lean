import Keyplan.Keymap
import Keyplan.Proofs.Description.Forgetting
import Keyplan.Proofs.OrderedMap
import Keyplan.Proofs.Outcome

/-!
# Forgetting — resolving does not look at places

A description and the same description without its places resolve alike: both fail or both
succeed, and the keymap of the second is the one of the first without its places. The only thing a
fault says that depends on more is the text of a chord, whose quotes may have been forgotten too;
`hchord` is what is needed there.
-/

namespace Keyplan

open PlainKey (Meaning)
open Outcome

/-! ## Keymaps without their places -/

def PlacedKey.forget (f : Meaning → Meaning) (k : PlacedKey) : PlacedKey :=
  { k with key := k.key.forget f }

def PlacedChord.forget (f : Meaning → Meaning) (c : PlacedChord) : PlacedChord :=
  { c with chord := c.chord.forget f }

def Layer.forget (f : Meaning → Meaning) (l : Layer) : Layer :=
  { l with keys := l.keys.map (PlacedKey.forget f), chords := l.chords.map (PlacedChord.forget f) }

def OptionValue.unlocated (v : OptionValue) : OptionValue where
  value := v.value

def OptionTable.unlocated (t : OptionTable Backend) : OptionTable Backend where
  values := t.values.mapValues OptionValue.unlocated
  blocks := t.blocks.mapValues fun _ => {}

def CustomOutput.unlocated (o : CustomOutput) : CustomOutput where
  text := o.text

def CustomKeys.unlocated (c : CustomKeys) : CustomKeys where
  outputs := c.outputs.mapValues CustomOutput.unlocated

namespace Keymap

def forget (f : Meaning → Meaning) (m : Keymap) : Keymap where
  description := m.description.forget f
  layout := m.layout
  layers := m.layers.map (Layer.forget f)
  options := m.options.unlocated
  customKeys := m.customKeys.unlocated

/-- What a keymap means: no places, and no quotes of character keys. -/
def bare (m : Keymap) : Keymap :=
  m.forget Meaning.unquoted

end Keymap

/-- What a diagnostic says, wherever it points to. -/
def Diagnostic.gist (d : Diagnostic) : Diagnostic :=
  { d with span := {}, labels := d.labels.map fun l => { l with span := {} } }

/-! ## Options -/

variable {E : Diagnostic → Diagnostic → Prop}

theorem Backend.resolve_tracks (hE : ∀ d : Diagnostic, E d d.gist) (name : String) (span : Span) :
    Tracks E id (Backend.resolve name span) (Backend.resolve name {}) := by
  unfold Backend.resolve
  split
  · exact .ok _
  · exact .error (hE _)

namespace OptionTable

theorem unlocated_set (t : OptionTable Backend) (b : Backend) (name : String) (v : OptionValue) :
    (t.set b name v).unlocated = t.unlocated.set b name v.unlocated := by
  unfold set unlocated
  rw [OrderedMap.mapValues_insert]

theorem unlocated_setLines (t : OptionTable Backend) (b : Backend) (lines : List OptionLine) :
    (t.setLines b lines).unlocated = t.unlocated.setLines b (lines.map OptionLine.unlocated) := by
  unfold setLines
  induction lines generalizing t with
  | nil => rfl
  | cons l lines ih =>
    rw [List.foldl_cons, List.map_cons, List.foldl_cons, ih, unlocated_set]
    rfl

theorem addBlock_tracks (hE : ∀ d : Diagnostic, E d d.gist) (t : OptionTable Backend)
    (block : OptionsBlock) :
    Tracks E unlocated (addBlock t block) (addBlock t.unlocated block.unlocated) := by
  unfold addBlock
  refine (Backend.resolve_tracks hE _ _).bind fun b => .pure ?_
  rw [unlocated_setLines]
  refine congrArg (OptionTable.setLines · b _) ?_
  have hsome : (t.unlocated.blocks.get? b).isSome = (t.blocks.get? b).isSome := by
    have hblocks : t.unlocated.blocks = t.blocks.mapValues fun _ => ({} : Span) := rfl
    rw [hblocks, OrderedMap.get?_mapValues, Option.isSome_map]
  simp only [id_eq, hsome]
  -- Only the first block of a backend is remembered.
  by_cases hb : (t.blocks.get? b).isSome
  · rw [if_pos hb, if_pos hb]
  · rw [if_neg hb, if_neg hb]
    unfold unlocated
    rw [OrderedMap.mapValues_insert]
    rfl

theorem resolve_tracks (hE : ∀ d : Diagnostic, E d d.gist) (blocks : List OptionsBlock)
    (defaults : List DefaultOption) :
    Tracks E unlocated (resolve blocks defaults)
      (resolve (blocks.map OptionsBlock.unlocated) defaults) := by
  unfold resolve
  -- Defaults have no places, so the table the blocks are added to stays as it is.
  have hinitial : ∀ t : OptionTable Backend, t.unlocated = t →
      (defaults.foldl (fun t d => t.set d.backend d.name { value := d.value }) t).unlocated =
        defaults.foldl (fun t d => t.set d.backend d.name { value := d.value }) t := by
    induction defaults with
    | nil => exact fun t ht => ht
    | cons d defaults ih =>
      intro t ht
      rw [List.foldl_cons]
      refine ih _ ?_
      rw [unlocated_set, ht]
      rfl
  have hfold := Tracks.foldlM blocks (addBlock_tracks hE)
    (defaults.foldl (fun t d => t.set d.backend d.name { value := d.value }) {})
  rwa [hinitial {} rfl] at hfold

end OptionTable

/-! ## Custom keys -/

namespace CustomKeys

theorem addOutput_tracks (hE : ∀ d : Diagnostic, E d d.gist) (name : String) (c : CustomKeys)
    (out : KeyOutput) :
    Tracks E unlocated (addOutput name c out) (addOutput name c.unlocated out.unlocated) := by
  unfold addOutput
  refine (Backend.resolve_tracks hE _ _).bind fun b => .pure ?_
  unfold unlocated
  rw [OrderedMap.mapValues_insert]
  rfl

theorem addAll_tracks (hE : ∀ d : Diagnostic, E d d.gist) (decls seen : List KeyDeclaration)
    (c : CustomKeys) :
    Tracks E unlocated (addAll seen c decls)
      (addAll (seen.map KeyDeclaration.unlocated) c.unlocated
        (decls.map KeyDeclaration.unlocated)) := by
  induction decls generalizing seen c with
  | nil => exact .ok c
  | cons d decls ih =>
    have hsame : ((·.name == d.unlocated.name) ∘ KeyDeclaration.unlocated) =
        (·.name == d.name) := rfl
    rw [List.map_cons, addAll, addAll, List.find?_map, hsame]
    -- A name is declared twice with places or without.
    cases seen.find? (·.name == d.name) with
    | some first => exact .error (hE _)
    | none =>
      refine (Tracks.foldlM d.outputs (addOutput_tracks hE d.name) c).bind fun c' => ?_
      have hrest := ih (seen ++ [d]) c'
      rwa [List.map_append] at hrest

theorem resolve_tracks (hE : ∀ d : Diagnostic, E d d.gist) (decls : List KeyDeclaration) :
    Tracks E unlocated (resolve decls) (resolve (decls.map KeyDeclaration.unlocated)) :=
  addAll_tracks hE decls [] {}

end CustomKeys

/-! ## Layouts -/

namespace Layout

theorem checkCoordinate_tracks (hE : ∀ d : Diagnostic, E d d.gist) (what : String) (n : Int)
    (span : Span) : Tracks E id (checkCoordinate what n span) (checkCoordinate what n {}) := by
  unfold checkCoordinate
  split
  · exact .ok _
  · exact .error (hE _)

theorem locate_tracks (hE : ∀ d : Diagnostic, E d d.gist) (col row : Int) (span : Span) :
    Tracks E id (MatrixPos.locate col row span) (MatrixPos.locate col row {}) := by
  unfold MatrixPos.locate
  refine (checkCoordinate_tracks hE _ _ _).bind fun r => ?_
  exact (checkCoordinate_tracks hE _ _ _).bind fun c => .ok _

namespace RowClaims

def unlocated (r : RowClaims) : RowClaims where
  slots := r.slots
  claims := r.claims.map fun claim => (claim.1, {})

theorem addKey_tracks (hE : ∀ d : Diagnostic, E d d.gist) (row : Nat) (column : Int) (span : Span)
    (r : RowClaims) :
    Tracks E unlocated (r.addKey row column span) (r.unlocated.addKey row column {}) := by
  unfold addKey
  refine (locate_tracks hE _ _ _).bind fun pos => ?_
  refine (checkCoordinate_tracks hE _ _ _).bind fun _ => ?_
  -- The same claim is found, with another place.
  have hfind : r.unlocated.claims.find? (·.1 == pos.col) =
      (r.claims.find? (·.1 == pos.col)).map fun claim => (claim.1, {}) := by
    show (r.claims.map _).find? _ = _
    rw [List.find?_map]
    rfl
  simp only [id_eq, hfind]
  cases r.claims.find? (·.1 == pos.col) with
  | some claim => exact .error (hE _)
  | none =>
    refine .pure ?_
    simp [unlocated]

theorem addKeys_tracks (hE : ∀ d : Diagnostic, E d d.gist) (row : Nat) (span : Span) (n : Nat)
    (r : RowClaims) :
    Tracks E unlocated (addKeys row span n r) (addKeys row {} n r.unlocated) := by
  induction n generalizing r with
  | zero => exact .ok r
  | succ n ih =>
    rw [addKeys, addKeys]
    exact (addKey_tracks hE row _ span r).bind ih

theorem addSpaces_tracks (hE : ∀ d : Diagnostic, E d d.gist) (span : Span) (n : Nat)
    (r : RowClaims) : Tracks E unlocated (addSpaces span n r) (addSpaces {} n r.unlocated) := by
  induction n generalizing r with
  | zero => exact .ok r
  | succ n ih =>
    rw [addSpaces, addSpaces]
    exact (checkCoordinate_tracks hE _ _ _).bind fun _ => ih _

theorem addItem_tracks (hE : ∀ d : Diagnostic, E d d.gist) (row : Nat) (r : RowClaims)
    (item : LayoutItem) :
    Tracks E unlocated (addItem row r item) (addItem row r.unlocated item.unlocated) := by
  unfold addItem
  have hshape : item.unlocated.shape = item.shape := rfl
  rw [hshape]
  cases item.shape with
  | keys count =>
    dsimp only
    split
    · exact .error (hE _)
    · exact addKeys_tracks hE row _ _ r
  | spaces count =>
    dsimp only
    split
    · exact .error (hE _)
    · exact addSpaces_tracks hE _ _ r
  | remap column => exact addKey_tracks hE row column _ r

end RowClaims

theorem resolveRow_tracks (hE : ∀ d : Diagnostic, E d d.gist) (row : Nat) (node : LayoutRow) :
    Tracks E id (resolveRow row node) (resolveRow row node.unlocated) := by
  unfold resolveRow
  refine (checkCoordinate_tracks hE _ _ _).bind fun _ => ?_
  refine (Tracks.foldlM node.items (RowClaims.addItem_tracks hE row) {}).bind fun r => ?_
  exact .ok r.slots

theorem resolveRows_tracks (hE : ∀ d : Diagnostic, E d d.gist) (nodes : List LayoutRow)
    (row : Nat) (first : Option (Nat × Span)) :
    Tracks E id (resolveRows row first nodes)
      (resolveRows row (first.map fun w => (w.1, {})) (nodes.map LayoutRow.unlocated)) := by
  induction nodes generalizing row first with
  | nil => exact .ok []
  | cons node nodes ih =>
    rw [List.map_cons, resolveRows, resolveRows]
    refine (resolveRow_tracks hE row node).bind fun slots => ?_
    -- The width that rows are compared with is the same.
    have hfirst : (first.map fun w => (w.1, ({} : Span))).getD (slots.length, node.unlocated.span) =
        ((first.getD (slots.length, node.span)).1, {}) := by
      cases first <;> rfl
    simp only [id_eq, hfirst]
    split
    · exact .error (hE _)
    · exact (ih (row + 1) (some (first.getD (slots.length, node.span)))).bind fun others => .ok _

theorem remapFaults_unlocated (width : Nat) (nodes : List LayoutRow) :
    remapFaults width (nodes.map LayoutRow.unlocated) =
      (remapFaults width nodes).map Diagnostic.gist := by
  have hfault : ∀ (row : Nat) (item : LayoutItem),
      remapFault? width row item.unlocated = (remapFault? width row item).map Diagnostic.gist := by
    intro row item
    unfold remapFault?
    rw [show item.unlocated.shape = item.shape from rfl]
    cases item.shape with
    | keys => rfl
    | spaces => rfl
    | remap column =>
      dsimp only
      split <;> rfl
  have hrow : ∀ (row : Nat) (items : List LayoutItem),
      (items.map LayoutItem.unlocated).findSome? (remapFault? width row) =
        (items.findSome? (remapFault? width row)).map Diagnostic.gist := by
    intro row items
    rw [List.findSome?_map, List.map_findSome?]
    exact congrArg (List.findSome? · items) (funext (hfault row))
  unfold remapFaults
  rw [List.zipIdx_map, List.findSome?_map, List.map_findSome?]
  refine congrArg (List.findSome? · nodes.zipIdx) (funext fun x => ?_)
  exact hrow x.2 x.1.items

theorem resolve_tracks (hE : ∀ d : Diagnostic, E d d.gist) (block : LayoutBlock) :
    Tracks E id (resolve block) (resolve block.unlocated) := by
  unfold resolve
  have hempty : block.unlocated.rows.isEmpty = block.rows.isEmpty := by
    show (block.rows.map _).isEmpty = _
    rw [List.isEmpty_map]
  rw [hempty]
  cases block.rows.isEmpty with
  | true => exact .error (hE _)
  | false =>
    refine (resolveRows_tracks hE block.rows 0 none).bind fun rows => ?_
    have hfaults : remapFaults (Layout.width ⟨rows⟩) block.unlocated.rows =
        (remapFaults (Layout.width ⟨rows⟩) block.rows).map Diagnostic.gist :=
      remapFaults_unlocated _ block.rows
    simp only [id_eq, hfaults]
    cases remapFaults (Layout.width ⟨rows⟩) block.rows with
    | some fault => exact .error (hE fault)
    | none => exact .ok _

end Layout

/-! ## Layers -/

namespace Layer

variable {f : Meaning → Meaning}

theorem keyUnder_tracks (hE : ∀ d : Diagnostic, E d d.gist) (layout : Layout) (p : LayoutPos)
    (span : Span) : Tracks E id (keyUnder layout p span) (keyUnder layout p {}) := by
  unfold keyUnder
  split
  · exact .ok _
  · exact .error (hE _)

/-- Chords in the wrong place are reported alike without places. -/
def ReportsChords (E : Diagnostic → Diagnostic → Prop) (f : Meaning → Meaning) : Prop :=
  ∀ node previous next c, E (badChord node previous next c)
    (badChord (node.forget f) (previous.map (RowItem.forget f)) (next.map (RowItem.forget f))
      (c.forget f))

theorem placeChord_tracks (hE : ∀ d : Diagnostic, E d d.gist) (hchord : ReportsChords E f)
    (layout : Layout) (node : LayerRow) (row col : Nat) (previous next : Option RowItem)
    (c : Chord) :
    Tracks E (PlacedChord.forget f) (placeChord layout node row col previous next c)
      (placeChord layout (node.forget f) row col (previous.map (RowItem.forget f))
        (next.map (RowItem.forget f)) (c.forget f)) := by
  have hbad := hchord node previous next c
  -- Four ways to miss a neighbour, all reported alike.
  match previous, next with
  | none, _ => exact .error hbad
  | some (.chord _), _ => exact .error hbad
  | some (.key _), none => exact .error hbad
  | some (.key _), some (.chord _) => exact .error hbad
  | some (.key k), some (.key k') =>
    refine (keyUnder_tracks hE layout _ k.span).bind fun under => ?_
    exact (keyUnder_tracks hE layout _ k'.span).bind fun under' => .ok _

theorem placeItems_tracks (hE : ∀ d : Diagnostic, E d d.gist) (hchord : ReportsChords E f)
    (layout : Layout) (node : LayerRow) (row : Nat) (items : List RowItem)
    (previous : Option RowItem) (col : Nat) :
    Tracks E (Prod.map (List.map (PlacedKey.forget f)) (List.map (PlacedChord.forget f)))
      (placeItems layout node row previous col items)
      (placeItems layout (node.forget f) row (previous.map (RowItem.forget f)) col
        (items.map (RowItem.forget f))) := by
  induction items generalizing previous col with
  | nil => exact .ok ([], [])
  | cons item items ih =>
    cases item with
    | key k =>
      refine (keyUnder_tracks hE layout _ k.span).bind fun under => ?_
      exact (ih (some (.key k)) (col + 1)).bind fun placed => .ok _
    | chord c =>
      -- A chord looks at the item behind it.
      have hhead : (items.map (RowItem.forget f)).head? = items.head?.map (RowItem.forget f) :=
        List.head?_map
      rw [List.map_cons, RowItem.forget, placeItems, placeItems, hhead]
      refine (placeChord_tracks hE hchord layout node row col previous items.head? c).bind
        fun placed => ?_
      exact (ih (some (.chord c)) col).bind fun rest => .ok _

theorem placeRows_tracks (hE : ∀ d : Diagnostic, E d d.gist) (hchord : ReportsChords E f)
    (layout : Layout) (name : String) (nodes : List LayerRow) (row : Nat) :
    Tracks E (Prod.map (List.map (PlacedKey.forget f)) (List.map (PlacedChord.forget f)))
      (placeRows layout name row nodes)
      (placeRows layout name row (nodes.map (LayerRow.forget f))) := by
  induction nodes generalizing row with
  | nil => exact .ok ([], [])
  | cons node nodes ih =>
    rw [List.map_cons, placeRows, placeRows]
    split
    · exact .error (hE _)
    · refine (placeItems_tracks hE hchord layout node row node.items none 0).bind fun here => ?_
      refine (ih (row + 1)).bind fun below => .pure ?_
      simp [Prod.map]

theorem resolve_tracks (hE : ∀ d : Diagnostic, E d d.gist) (hchord : ReportsChords E f)
    (layout : Layout) (block : LayerBlock) :
    Tracks E (Layer.forget f) (resolve layout block) (resolve layout (block.forget f)) := by
  unfold resolve
  refine (placeRows_tracks hE hchord layout block.name block.rows 0).bind fun placed => .pure ?_
  simp [Layer.forget, LayerBlock.forget]

theorem checkNames_tracks (hE : ∀ d : Diagnostic, E d d.gist) (blocks seen : List LayerBlock) :
    Tracks E id (checkNames seen blocks)
      (checkNames (seen.map (LayerBlock.forget f)) (blocks.map (LayerBlock.forget f))) := by
  induction blocks generalizing seen with
  | nil => exact .ok ()
  | cons b blocks ih =>
    have hsame : ((·.name == (b.forget f).name) ∘ LayerBlock.forget f) =
        (·.name == b.name) := rfl
    rw [List.map_cons, checkNames, checkNames, List.find?_map, hsame]
    cases seen.find? (·.name == b.name) with
    | some first => exact .error (hE _)
    | none =>
      have hrest := ih (seen ++ [b])
      rwa [List.map_append] at hrest

theorem resolveAll_tracks (hE : ∀ d : Diagnostic, E d d.gist) (hchord : ReportsChords E f)
    (layout : Layout) (blocks : List LayerBlock) :
    Tracks E (List.map (Layer.forget f)) (resolveAll layout blocks)
      (resolveAll layout (blocks.map (LayerBlock.forget f))) := by
  unfold resolveAll
  refine (checkNames_tracks hE blocks []).bind fun _ => ?_
  exact Tracks.mapM blocks fun block _ => resolve_tracks hE hchord layout block

end Layer

/-! ## Keymaps -/

/-- A description without its places resolves to the keymap without its places. -/
theorem Keymap.resolve_tracks {f : Meaning → Meaning} (hE : ∀ d : Diagnostic, E d d.gist)
    (hchord : Layer.ReportsChords E f) (d : Description) (defaults : List DefaultOption) :
    Tracks E (Keymap.forget f) (Keymap.resolve d defaults)
      (Keymap.resolve (d.forget f) defaults) := by
  unfold Keymap.resolve
  refine (OptionTable.resolve_tracks hE d.options defaults).bind fun options => ?_
  refine (CustomKeys.resolve_tracks hE d.keys).bind fun customKeys => ?_
  refine (Layout.resolve_tracks hE d.layout).bind fun layout => ?_
  exact (Layer.resolveAll_tracks hE hchord layout d.layers).bind fun layers => .ok _

/-- Descriptions that are alike once something is forgotten resolve to keymaps that are. -/
theorem Keymap.resolve_of_forget {f : Meaning → Meaning} {d d' : Description}
    (h : d.forget f = d'.forget f) {defaults : List DefaultOption} {m : Keymap}
    (hm : Keymap.resolve d defaults = .ok m) :
    ∃ m', Keymap.resolve d' defaults = .ok m' ∧ m'.forget f = m.forget f := by
  -- Diagnostics do not matter here: both descriptions resolve.
  have htracks := fun d => Keymap.resolve_tracks (E := fun _ _ => True) (f := f)
    (fun _ => trivial) (fun _ _ _ _ => trivial) d defaults
  have hforget := (htracks d).of_ok hm
  rw [h] at hforget
  exact (htracks d').ok_of hforget

/-- What a description resolves to depends only on what it means. -/
theorem Keymap.resolve_of_bare {d d' : Description} (h : d.bare = d'.bare)
    {defaults : List DefaultOption} {m : Keymap} (hm : Keymap.resolve d defaults = .ok m) :
    ∃ m', Keymap.resolve d' defaults = .ok m' ∧ m'.bare = m.bare :=
  Keymap.resolve_of_forget h hm

end Keyplan
