import Keyplan.Proofs.Format.Canonical
import Keyplan.Proofs.Format.Lines
import Keyplan.Proofs.Grammar.Completeness
import Keyplan.Proofs.Keymap
import Mathlib.Data.List.Forall2

/-!
# Reading the canonical form

The canonical form of a keymap that was read is read as the canonical derivation of its
description: block by block, and line by line within a block.
-/

namespace Keyplan.Format

open Token (Kind StopsAt kindsOf kindsOf_identifier)
open Grammar (Cell Item Row braced)
open Lexeme

/-! ## Blocks -/

theorem spells_named {heading : String} (word : String) {name : String}
    (hheading : heading.toList = word.toList ++ [' ']) (hword : (Kind.identifier word).Spellable)
    (hname : (Kind.identifier name).Spellable) :
    Spells (heading.toList ++ name.toList) [.identifier word, .identifier name] := by
  have hspell : ∀ {s : String}, (Kind.identifier s).Spellable → Spells s.toList [.identifier s] :=
    fun hs rest hrest => kindsOf_identifier hs hrest
  rw [hheading, List.append_assoc]
  exact (hspell hword).append ((hspell hname).blanks 1) (stopsAt_cons rfl)

/-- The lines of a block, each closed by a semicolon. -/
theorem spells_lines {α : Type} {line : α → List Char} {kinds : α → List Kind} (n : Nat)
    (xs : List α) (hlines : ∀ x ∈ xs, Spells (line x) (kinds x)) {cs : List Char}
    {ks : List Kind} (hcs : Spells cs ks) :
    Spells ((xs.map line).flatMap (fun l => List.replicate n ' ' ++ l ++ ";\n".toList) ++ cs)
      (xs.flatMap (fun x => kinds x ++ [.symbol .semicolon]) ++ ks) := by
  induction xs with
  | nil => exact hcs
  | cons x xs ih =>
    have hrest := ih fun y hy => hlines y (List.mem_cons_of_mem _ hy)
    -- From the end of the line to its start: line end, semicolon, text, indent.
    have hend := Spells.symbol (c := ';') rfl (by decide) hrest.newline
    have hline := ((hlines x List.mem_cons_self).append hend (stopsAt_cons rfl)).blanks n
    simpa [List.append_assoc] using hline

theorem spells_block {α : Type} {heading : List Char} {ks : List Kind}
    (hheading : Spells heading ks) (n : Nat) {line : α → List Char} (kinds : α → List Kind)
    (xs : List α) (hlines : ∀ x ∈ xs, Spells (line x) (kinds x)) :
    Spells (block (List.replicate n ' ') heading (xs.map line))
      (ks ++ braced (fun x => kinds x ++ [.symbol .semicolon]) xs) := by
  have hclose : Spells "\x7d\n".toList [.symbol .closeBrace] :=
    Spells.symbol rfl (by decide) spells_nil.newline
  have hbody := (spells_lines n xs hlines hclose).newline
  have hopen := (Spells.symbol (c := '\x7b') rfl (by decide) hbody).blanks 1
  have hall := hheading.append hopen (stopsAt_cons rfl)
  simpa [block, braced, List.append_assoc] using hall

theorem spells_blocks {texts : List (List Char)} {kinds : List (List Kind)}
    (h : List.Forall₂ Spells texts kinds) :
    Spells (List.intercalate ['\n'] texts) kinds.flatten := by
  induction h with
  | nil => exact spells_nil
  | @cons text ks texts kinds hfirst hrest ih =>
    cases hrest with
    | nil => simpa using hfirst
    | cons hsecond hrest =>
      rw [List.intercalate_cons_cons, List.append_assoc, List.flatten_cons]
      exact hfirst.append ih.newline (stopsAt_cons rfl)

theorem mem_braced {α : Type} {part : α → List Kind} {xs : List α} {x : α} (hx : x ∈ xs)
    {k : Kind} (hk : k ∈ part x) : k ∈ braced part xs := by
  simp only [braced, List.cons_append, List.mem_cons, List.mem_append, List.mem_flatMap]
  exact .inr (.inl ⟨x, hx, hk⟩)

/-! ## The layout -/

theorem layoutLine_unlocated (r : LayoutRow) : layoutLine r.unlocated = layoutLine r := by
  simp [layoutLine, LayoutRow.unlocated, LayoutItem.unlocated, Function.comp_def]

theorem spells_layout (n : Nat) {layout : LayoutBlock} {rows : List (Row Cell)}
    (hlayout : layout.unlocated = Grammar.layoutTree rows)
    (hspell : ∀ k ∈ (Grammar.Block.layout rows).kinds, k.Spellable) :
    Spells (block (List.replicate n ' ') "layout".toList (layout.rows.map layoutLine))
      (Grammar.Block.layout rows).kinds := by
  have hlines : layout.rows.map layoutLine = rows.map fun r =>
      List.intercalate [' '] (r.items.map fun c => c.tree.shape.spelling) := by
    have hrows := congrArg (fun b : LayoutBlock => b.rows.map layoutLine) hlayout
    simp only [LayoutBlock.unlocated, Grammar.layoutTree, List.map_map, Function.comp_def,
      layoutLine_unlocated] at hrows
    rw [hrows]
    simp [layoutLine, Function.comp_def]
  rw [hlines]
  have hheading : Spells "layout".toList [.identifier "layout"] := fun rest hrest =>
    kindsOf_identifier ⟨'l', "ayout".toList, rfl, rfl, List.all_eq_true.mp rfl⟩ hrest
  refine spells_block hheading n (fun r => r.items.flatMap Cell.kinds) rows fun r hr => ?_
  -- What was read once can be spelled.
  have hcell : ∀ c ∈ r.items, ∀ k ∈ c.kinds, k.Spellable := by
    intro c hc k hk
    refine hspell k (List.mem_cons_of_mem _ (mem_braced hr ?_))
    exact List.mem_append_left _ (List.mem_flatMap.mpr ⟨c, hc, hk⟩)
  have hwords := Spaced.words (r.items.map fun c => c.tree.shape.spelling) (by
    intro w hw
    obtain ⟨c, -, rfl⟩ := List.mem_map.mp hw
    exact c.endsTight)
  exact hwords.spells fun c hc => c.spells (hcell c hc)

/-! ## Options and key declarations -/

theorem spells_value {cs : List Char} {ks : List Kind} (hcs : Spells cs ks) {value : String}
    (hvalue : (Kind.string value).Spellable) :
    Spells (cs ++ ": ".toList ++ quote value) (ks ++ [.symbol .colon, .string value]) := by
  have hquote : Spells (quote value) [.string value] := by
    intro rest _
    have hread := Token.kindsOf_string hvalue rest
    simpa [quote, List.append_assoc] using hread
  rw [List.append_assoc]
  exact hcs.append (Spells.symbol rfl (by decide) (hquote.blanks 1)) (stopsAt_cons rfl)

def optionsText (indent : List Char) (o : OptionsBlock) : List Char :=
  block indent ("options ".toList ++ o.backend.toList) (o.options.map optionLine)

theorem optionsText_unlocated (indent : List Char) (o : OptionsBlock) :
    optionsText indent o.unlocated = optionsText indent o := by
  simp only [optionsText, OptionsBlock.unlocated, List.map_map, Function.comp_def]
  rfl

theorem spells_options (n : Nat) (backend : String) (lines : List Grammar.OptionLine)
    (hspell : ∀ k ∈ (Grammar.Block.options backend lines).kinds, k.Spellable) :
    Spells (optionsText (List.replicate n ' ') (Grammar.optionsTree backend lines))
      (Grammar.Block.options backend lines).kinds := by
  have hbackend : (Kind.identifier backend).Spellable := hspell _ (by simp [Grammar.Block.kinds])
  have hheading : Spells ("options ".toList ++ backend.toList)
      [.identifier "options", .identifier backend] :=
    spells_named "options" rfl ⟨'o', "ptions".toList, rfl, rfl, List.all_eq_true.mp rfl⟩ hbackend
  unfold optionsText Grammar.optionsTree
  rw [List.map_map]
  refine spells_block hheading n
    (fun o => [.identifier o.name, .symbol .colon, .string o.value]) lines fun o ho => ?_
  have hline : ∀ k ∈ o.kinds, k.Spellable := fun k hk =>
    hspell k (List.mem_cons_of_mem _ (List.mem_cons_of_mem _ (mem_braced ho hk)))
  have hname : Spells o.name.toList [.identifier o.name] := fun rest hrest =>
    kindsOf_identifier (hline _ (by simp [Grammar.OptionLine.kinds])) hrest
  exact spells_value hname (hline _ (by simp [Grammar.OptionLine.kinds]))

def declarationText (indent : List Char) (d : KeyDeclaration) : List Char :=
  block indent ("key ".toList ++ d.name.toList) (d.outputs.map outputLine)

theorem declarationText_unlocated (indent : List Char) (d : KeyDeclaration) :
    declarationText indent d.unlocated = declarationText indent d := by
  simp only [declarationText, KeyDeclaration.unlocated, List.map_map, Function.comp_def]
  rfl

theorem spells_declaration (n : Nat) (name : String) (lines : List Grammar.OutLine)
    (hspell : ∀ k ∈ (Grammar.Block.key name lines).kinds, k.Spellable) :
    Spells (declarationText (List.replicate n ' ') (Grammar.keyTree name lines))
      (Grammar.Block.key name lines).kinds := by
  have hname : (Kind.identifier name).Spellable := hspell _ (by simp [Grammar.Block.kinds])
  have hheading : Spells ("key ".toList ++ name.toList) [.identifier "key", .identifier name] :=
    spells_named "key" rfl ⟨'k', "ey".toList, rfl, rfl, List.all_eq_true.mp rfl⟩ hname
  unfold declarationText Grammar.keyTree
  rw [List.map_map]
  refine spells_block hheading n (fun o =>
    [.identifier "out", .identifier o.backend, .symbol .colon, .string o.text]) lines
    fun o ho => ?_
  have hline : ∀ k ∈ o.kinds, k.Spellable := fun k hk =>
    hspell k (List.mem_cons_of_mem _ (List.mem_cons_of_mem _ (mem_braced ho hk)))
  have hout : Spells ("out ".toList ++ o.backend.toList)
      [.identifier "out", .identifier o.backend] :=
    spells_named "out" rfl ⟨'o', "ut".toList, rfl, rfl, List.all_eq_true.mp rfl⟩
      (hline _ (by simp [Grammar.OutLine.kinds]))
  exact spells_value hout (hline _ (by simp [Grammar.OutLine.kinds]))

/-! ## Layers -/

/-- The items of the rows of a layer are spelled like those of its derivation. -/
theorem spelling_of_layerTree {b : LayerBlock} {name : String} {rows : List (Row Item)}
    (htree : b.forget id = Grammar.layerTree name rows) {i : Nat} {r : Row Item}
    (hr : rows[i]? = some r) :
    ∃ node, b.rows[i]? = some node ∧
      node.items.map RowItem.spelling = r.items.map fun x => x.tree.spelling := by
  have hrows : b.rows.map (LayerRow.forget id) =
      rows.map fun r => { items := r.items.map Item.tree } := congrArg LayerBlock.rows htree
  have hi := congrArg (·[i]?) hrows
  simp only [List.getElem?_map, hr, Option.map_some, Option.map_eq_some_iff] at hi
  obtain ⟨node, hnode, hitems⟩ := hi
  refine ⟨node, hnode, ?_⟩
  have hspelling := congrArg (fun r : LayerRow => r.items.map RowItem.spelling) hitems
  have hid : ∀ i : RowItem, (i.forget id).spelling = i.spelling :=
    RowItem.spelling_forget fun _ => rfl
  simpa [LayerRow.forget, Function.comp_def, hid] using hspelling

def layerText (indent : List Char) (m : Keymap) (l : Layer) : List Char :=
  block indent ("layer ".toList ++ l.name.toList) (layerLines m.layout (columnWidths m) l)

theorem spells_layer (n : Nat) {m : Keymap} (hlayout : m.layout.WellFormed) {l : Layer}
    (hl : l ∈ m.layers) {b : LayerBlock} (hresolve : Layer.resolve m.layout b = .ok l)
    {name : String} {rows : List (Row Item)} (htree : b.forget id = Grammar.layerTree name rows)
    (hspell : ∀ k ∈ (Grammar.Block.layer name rows).kinds, k.Spellable) :
    Spells (layerText (List.replicate n ' ') m l)
      (Grammar.Block.layer name (rows.map Row.canonical)).kinds := by
  obtain ⟨hlname, hcount, hplaced⟩ := Layer.resolve_eq_ok_iff.mp hresolve
  have hname : l.name = name := hlname.trans (congrArg LayerBlock.name htree)
  have hlength : b.rows.length = rows.length := by
    have hrows := congrArg (fun b : LayerBlock => b.rows.length) htree
    simpa [LayerBlock.forget, Grammar.layerTree] using hrows
  have hheading : Spells ("layer ".toList ++ name.toList)
      [.identifier "layer", .identifier name] :=
    spells_named "layer" rfl ⟨'l', "ayer".toList, rfl, rfl, List.all_eq_true.mp rfl⟩
      (hspell _ (by simp [Grammar.Block.kinds]))
  -- The lines are those of the rows with their numbers.
  have hlines : layerLines m.layout (columnWidths m) l = rows.zipIdx.map fun x =>
      layerLine m.layout (columnWidths m) x.2 (l.keys.filter (·.layout.row == x.2))
        (l.chords.filter (·.leftLayout.row == x.2)) := by
    unfold layerLines
    rw [hcount, hlength, List.range_eq_range', ← List.zipIdx_map_snd, List.map_map]
    rfl
  -- The derivation is numbered in the same way, so that both go over the same list.
  have hkinds : (Grammar.Block.layer name (rows.map Row.canonical)).kinds =
      [.identifier "layer", .identifier name] ++ braced (fun x : Row Item × Nat =>
        x.1.items.flatMap (fun i => i.canonical.kinds) ++ [.symbol .semicolon]) rows.zipIdx := by
    have hfst : rows.map Row.canonical = rows.zipIdx.map fun x => x.1.canonical := by
      conv => lhs; rw [← List.zipIdx_map_fst 0 rows, List.map_map]
      rfl
    simp only [Grammar.Block.kinds, hfst, braced, List.flatMap_map, Row.kinds,
      Row.items_canonical]
    rfl
  unfold layerText
  rw [hname, hlines, hkinds]
  apply spells_block hheading n (fun x : Row Item × Nat =>
    x.1.items.flatMap fun i => i.canonical.kinds) rows.zipIdx
  rintro ⟨r, i⟩ hx
  have hr : rows[i]? = some r := List.mem_zipIdx_iff_getElem?.mp hx
  obtain ⟨node, hnode, hspelling⟩ := spelling_of_layerTree htree hr
  have hitem : ∀ x ∈ r.items, ∀ k ∈ x.kinds, k.Spellable := by
    intro x hx k hk
    refine hspell k (List.mem_cons_of_mem _ (List.mem_cons_of_mem _
      (mem_braced (List.mem_of_getElem? hr) ?_)))
    exact List.mem_append_left _ (List.mem_flatMap.mpr ⟨x, hx, hk⟩)
  -- The words of a line are the items of the row, and each is read back as its own kinds.
  have hspaced := spaced_layerLines hlayout hl hplaced hnode (by
    intro item hmem
    have hword := List.mem_map_of_mem (f := RowItem.spelling) hmem
    rw [hspelling] at hword
    obtain ⟨x, hx, hxs⟩ := List.mem_map.mp hword
    exact hxs ▸ x.endsTight (hitem x hx))
  rw [hspelling] at hspaced
  exact hspaced.spells fun x hx => x.spells (hitem x hx)

/-! ## Whole descriptions -/

theorem spellable_of_mem_file {source : Text} {f : Grammar.File}
    (hf : Parser.kinds (TokenStream.ofText source).tokens = f.kinds) {b : Grammar.Block}
    (hb : b ∈ f) : ∀ k ∈ b.kinds, k.Spellable := by
  intro k hk
  have hmem : k ∈ Parser.kinds (TokenStream.ofText source).tokens := by
    rw [hf]
    exact List.mem_flatMap.mpr ⟨b, hb, hk⟩
  obtain ⟨t, ht, rfl⟩ := List.mem_map.mp hmem
  exact Token.spellable_of_mem_tokens ht

theorem forall₂_map_spells {α : Type} {text : α → List Char} {kinds : α → List Kind} {xs : List α}
    (h : ∀ x ∈ xs, Spells (text x) (kinds x)) :
    List.Forall₂ Spells (xs.map text) (xs.map kinds) :=
  List.forall₂_map_left_iff.mpr (List.forall₂_map_right_iff.mpr (List.forall₂_same.mpr h))

theorem mem_of_mem_filterMap {γ : Type} {f : Grammar.File} {pick : Grammar.Block → Option γ}
    (make : γ → Grammar.Block) (hpick : ∀ b x, pick b = some x → b = make x) {x : γ}
    (hx : x ∈ f.filterMap pick) : make x ∈ f := by
  obtain ⟨b, hb, hbx⟩ := List.mem_filterMap.mp hx
  exact hpick b x hbx ▸ hb

theorem forall₂_layers (n : Nat) {m : Keymap} (hm : m.WellFormed)
    {layers : List (String × List (Row Item))}
    (hlayers : m.description.layers.map (LayerBlock.forget id) =
      layers.map fun x => Grammar.layerTree x.1 x.2)
    (hspell : ∀ x ∈ layers, ∀ k ∈ (Grammar.Block.layer x.1 x.2).kinds, k.Spellable) :
    List.Forall₂ Spells (m.layers.map (layerText (List.replicate n ' ') m))
      (layers.map fun x => (Grammar.Block.layer x.1 (x.2.map Row.canonical)).kinds) := by
  rw [List.forall₂_map_left_iff, List.forall₂_map_right_iff]
  have hcount : m.layers.length = layers.length := by
    have hlength := congrArg List.length hlayers
    rw [List.length_map, List.length_map] at hlength
    rw [Outcome.length_of_mapM hm.layers, hlength]
  refine List.forall₂_iff_get.mpr ⟨hcount, fun i hi hi' => ?_⟩
  have hb : i < m.description.layers.length := by
    rwa [← Outcome.length_of_mapM hm.layers]
  -- Layer, block and derivation with the same number belong together.
  obtain ⟨l, hl, hresolve⟩ := Outcome.mapM_getElem? hm.layers (List.getElem?_eq_getElem hb)
  have hget : m.layers.get ⟨i, hi⟩ = l := by
    rw [List.getElem?_eq_getElem hi] at hl
    exact Option.some.inj hl
  have htree : m.description.layers[i].forget id =
      Grammar.layerTree layers[i].1 layers[i].2 := by
    have hat := congrArg (·[i]?) hlayers
    simpa [hb, hi'] using hat
  rw [hget]
  exact spells_layer n hm.layout (List.mem_of_getElem? hl) hresolve htree
    (hspell _ (List.getElem_mem hi'))

/-- The blocks of the canonical form are spelled like those of the canonical derivation. -/
theorem forall₂_blocks (n : Nat) {m : Keymap} (hm : m.WellFormed) {f : Grammar.File}
    {rows : List (Row Cell)} (hrows : f.layouts = [rows])
    (htree : m.description.unlocated = f.tree rows)
    (hspell : ∀ b ∈ f, ∀ k ∈ b.kinds, k.Spellable) :
    List.Forall₂ Spells (blocks m (List.replicate n ' '))
      ((f.canonical rows).map Grammar.Block.kinds) := by
  rw [Grammar.File.tree_eq] at htree
  have hlayout : m.description.layout.unlocated = Grammar.layoutTree rows :=
    congrArg Description.layout htree
  have hoptions : m.description.options.map (optionsText (List.replicate n ' ')) =
      (f.filterMap Grammar.Block.options?).map fun x =>
        optionsText (List.replicate n ' ') (Grammar.optionsTree x.1 x.2) := by
    have h := congrArg (fun d => d.options.map (optionsText (List.replicate n ' '))) htree
    simpa [Description.unlocated, Description.forget, Function.comp_def,
      optionsText_unlocated] using h
  have hkeys : m.description.keys.map (declarationText (List.replicate n ' ')) =
      (f.filterMap Grammar.Block.key?).map fun x =>
        declarationText (List.replicate n ' ') (Grammar.keyTree x.1 x.2) := by
    have h := congrArg (fun d => d.keys.map (declarationText (List.replicate n ' '))) htree
    simpa [Description.unlocated, Description.forget, Function.comp_def,
      declarationText_unlocated] using h
  have hlayers : m.description.layers.map (LayerBlock.forget id) =
      (f.filterMap Grammar.Block.layer?).map fun x => Grammar.layerTree x.1 x.2 :=
    congrArg Description.layers htree
  have hmem : rows ∈ f.filterMap Grammar.Block.layout? := by
    show rows ∈ f.layouts
    rw [hrows]
    exact List.mem_cons_self
  show List.Forall₂ Spells ([_] ++ m.description.options.map (optionsText _) ++
    m.description.keys.map (declarationText _) ++ m.layers.map (layerText _ m)) _
  rw [hoptions, hkeys]
  simp only [Grammar.File.canonical, List.map_append, List.map_map, Function.comp_def]
  -- Both sides have the same four groups: layout, options, keys and layers.
  refine List.rel_append (List.rel_append (List.rel_append ?_ ?_) ?_) ?_
  · refine .cons (spells_layout n hlayout (hspell _ ?_)) .nil
    exact mem_of_mem_filterMap .layout (by rintro (_ | _ | _ | _) x ⟨⟩; rfl) hmem
  · refine forall₂_map_spells fun x hx => spells_options n x.1 x.2 (hspell _ ?_)
    exact mem_of_mem_filterMap (fun x => .options x.1 x.2) (by rintro (_ | _ | _ | _) x ⟨⟩; rfl) hx
  · refine forall₂_map_spells fun x hx => spells_declaration n x.1 x.2 (hspell _ ?_)
    exact mem_of_mem_filterMap (fun x => .key x.1 x.2) (by rintro (_ | _ | _ | _) x ⟨⟩; rfl) hx
  · refine forall₂_layers n hm hlayers fun x hx => hspell _ ?_
    exact mem_of_mem_filterMap (fun x => .layer x.1 x.2) (by rintro (_ | _ | _ | _) x ⟨⟩; rfl) hx

/-- The canonical form of a keymap that was read is read as the canonical derivation. -/
theorem parse_format {source : Text} {defaults : List DefaultOption} {m : Keymap}
    {out : List Char} (hread : Keymap.read source defaults = .ok m)
    (hformat : format m = .ok out) :
    ∃ (f : Grammar.File) (rows : List (Row Cell)) (d : Description),
      m.description.unlocated = f.tree rows ∧
        Description.parse (Text.ofChars out) = .ok d ∧
          d.unlocated = (f.canonical rows).tree rows := by
  have hm := Keymap.wellFormed_of_read hread
  obtain ⟨d, hparse, hresolve⟩ := Outcome.bind_eq_ok_iff.mp hread
  obtain ⟨rfl, -, -⟩ := Keymap.resolve_eq_ok hresolve
  obtain ⟨f, rows, hf, hrows, htree⟩ := Parser.description_sound hparse
  obtain ⟨indent, -, hformat⟩ := Outcome.bind_eq_ok_iff.mp hformat
  obtain rfl := Outcome.pure_eq_ok_iff.mp hformat
  have hspells := spells_blocks (forall₂_blocks indent.toNat hm hrows htree fun b hb =>
    spellable_of_mem_file hf hb)
  -- Nothing follows the last block.
  have hout := hspells [] nofun
  rw [List.append_nil, Token.kindsOf_nil, List.append_nil] at hout
  have hkinds : kindsOf (List.intercalate ['\n']
      (blocks m (List.replicate indent.toNat ' '))) = (f.canonical rows).kinds := hout
  have hreadable := Parser.file_readable (f.canonical rows)
  have htokens : Parser.kinds (TokenStream.ofText (Text.ofChars (List.intercalate ['\n']
      (blocks m (List.replicate indent.toNat ' '))))).tokens = (f.canonical rows).kinds := by
    rw [← hkinds]
    -- A derivation has no invalid token, so no lexemes are joined.
    refine Token.kinds_ofText_ofChars fun hinvalid => ?_
    rw [hkinds] at hinvalid
    exact (hreadable _ hinvalid).1 rfl
  obtain ⟨d', hd', htree'⟩ := Parser.description_complete htokens (htokens ▸ hreadable)
    (Grammar.File.layouts_canonical f rows)
  exact ⟨f, rows, d', htree, hd', htree'⟩

end Keyplan.Format
