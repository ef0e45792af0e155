import Keyplan.Defaults
import Keyplan.Proofs.Golden.Sources
import Keyplan.Proofs.Keymap.Isolation
import Keyplan.Proofs.OptionTable

/-!
# Defaults — a default is an option written in front of everything else

Defaults can be written down as options blocks. A source with these blocks in front of it is read
as the same description with more options. The blocks set what the defaults set, so the options in
force have the same values, and no artifact looks at more of them.
-/

namespace Keyplan

open Outcome
open Token (Kind kindsOf)

/-! ## 1. Defaults as text -/

theorem Backend.name_spellable (b : Backend) : (Kind.identifier b.name).Spellable := by
  cases b with
  | firmware => exact ⟨'f', "irmware".toList, rfl, rfl, List.all_eq_true.mp rfl⟩
  | diagram => exact ⟨'d', "iagram".toList, rfl, rfl, List.all_eq_true.mp rfl⟩
  | formatter => exact ⟨'f', "ormatter".toList, rfl, rfl, List.all_eq_true.mp rfl⟩

namespace DefaultTable

def lines (t : DefaultTable Backend) : List Grammar.OptionLine :=
  t.values.map fun v => ⟨v.1, v.2⟩

def block (t : DefaultTable Backend) : OptionsBlock :=
  Grammar.optionsTree t.backend.name t.lines

theorem ofName?_block (t : DefaultTable Backend) :
    Backend.ofName? t.block.backend = some t.backend := by
  obtain ⟨b, values⟩ := t
  cases b <;> rfl

/-- Names are identifiers, and values have no line end in them. -/
def Spellable (t : DefaultTable Backend) : Prop :=
  ∀ v ∈ t.values, (Kind.identifier v.1).Spellable ∧ (Kind.string v.2).Spellable

theorem Spellable.kinds {t : DefaultTable Backend} (h : t.Spellable) :
    ∀ k ∈ (Grammar.Block.options t.backend.name t.lines).kinds, k.Spellable := by
  intro k hk
  simp only [Grammar.Block.kinds, Grammar.braced, lines, Grammar.OptionLine.kinds,
    List.flatMap_map, List.mem_cons, List.mem_append, List.mem_flatMap, List.not_mem_nil,
    or_false, List.cons_append] at hk
  rcases hk with rfl | rfl | rfl | ⟨v, hv, rfl | rfl | rfl | rfl⟩ | rfl
  · exact ⟨'o', "ptions".toList, rfl, rfl, List.all_eq_true.mp rfl⟩
  · exact t.backend.name_spellable
  · trivial
  · exact (h v hv).1
  · trivial
  · exact (h v hv).2
  · trivial
  · trivial

end DefaultTable

namespace Defaults

def blocks (d : Defaults) : List OptionsBlock :=
  d.map DefaultTable.block

/-- The options blocks of defaults as they are formatted, each with an empty line behind it. -/
def text (indent : Nat) (d : Defaults) : List Char :=
  d.blocks.flatMap fun b => Format.optionsText (List.replicate indent ' ') b ++ ['\n']

def derivation (d : Defaults) : Grammar.File :=
  d.map fun t => .options t.backend.name t.lines

/-- The blocks are read as their derivation, whatever follows them. -/
theorem kindsOf_text (indent : Nat) {d : Defaults} (hspell : ∀ t ∈ d, t.Spellable)
    (rest : List Char) :
    kindsOf (text indent d ++ rest) = (derivation d).kinds ++ kindsOf rest := by
  induction d with
  | nil => rfl
  | cons t d ih =>
    obtain ⟨ht, hd⟩ := List.forall_mem_cons.mp hspell
    have htext : text indent (t :: d) ++ rest =
        Format.optionsText (List.replicate indent ' ') t.block ++
          '\n' :: (text indent d ++ rest) := by
      simp [text, blocks]
    have hblock := Format.spells_options indent t.backend.name t.lines ht.kinds
      ('\n' :: (text indent d ++ rest)) (Format.stopsAt_cons rfl)
    rw [Token.kindsOf_newline, ih hd, ← List.append_assoc] at hblock
    rw [htext]
    exact hblock

/-! ## 2. Reading -/

theorem layouts_derivation (d : Defaults) (f : Grammar.File) :
    Grammar.File.layouts (derivation d ++ f) = f.layouts := by
  induction d with
  | nil => rfl
  | cons t d ih => exact ih

end Defaults

/-- A description with defaults written in front of its options. -/
def Description.behind (d : Description) (defaults : Defaults) : Description :=
  { d with options := defaults.blocks ++ d.options }

theorem Description.unlocated_behind (d : Description) (defaults : Defaults) :
    (d.behind defaults).unlocated = d.unlocated.behind defaults := by
  have hblocks : defaults.blocks.map OptionsBlock.unlocated = defaults.blocks := by
    simp [Defaults.blocks, DefaultTable.block, Grammar.optionsTree, OptionsBlock.unlocated,
      OptionLine.unlocated, Function.comp_def]
  unfold behind unlocated forget
  rw [List.map_append, hblocks]

theorem Defaults.tree_derivation (d : Defaults) (f : Grammar.File)
    (rows : List (Grammar.Row Grammar.Cell)) :
    Grammar.File.tree (d.derivation ++ f) rows = (f.tree rows).behind d := by
  induction d with
  | nil => rfl
  | cons t d ih =>
    have hcons : Grammar.File.tree (derivation (t :: d) ++ f) rows =
        { Grammar.File.tree (derivation d ++ f) rows with
          options := t.block :: (Grammar.File.tree (derivation d ++ f) rows).options } := rfl
    rw [hcons, ih]
    rfl

/-- A text whose lexemes are valid has no stray bytes. -/
theorem Text.Lexes.exists_chars {t : Text} (h : t.Lexes) : ∃ cs, t = Text.ofChars cs := by
  refine ⟨t.map Glyph.shown, ?_⟩
  have hchar : ∀ g ∈ t, Glyph.char g.shown = g := by
    intro g hg
    rw [← Lexeme.flatMap_text_cut t] at hg
    obtain ⟨l, hl, hgl⟩ := List.mem_flatMap.mp hg
    have hvalid := h l hl
    obtain ⟨g', rest, rfl⟩ := Token.mem_cut hl
    obtain ⟨cs, -, htext⟩ := Lexeme.fits_classify g' rest hvalid
    rw [htext] at hgl
    obtain ⟨c, -, rfl⟩ := List.mem_map.mp hgl
    rfl
  rw [Text.ofChars, List.map_map]
  exact ((List.map_congr_left hchar).trans (List.map_id t)).symm

/-- A source with options blocks in front of it is read as the same description with more
options. -/
theorem parse_behind_defaults {source : Text} {d : Description}
    (h : Description.parse source = .ok d) (indent : Nat) {defaults : Defaults}
    (hspell : ∀ t ∈ defaults, t.Spellable) :
    ∃ d', Description.parse (Text.ofChars (defaults.text indent) ++ source) = .ok d' ∧
      d'.unlocated = (d.behind defaults).unlocated := by
  obtain ⟨cs, rfl⟩ := (lexes_of_parse h).exists_chars
  obtain ⟨f, rows, hkinds, hrows, htree⟩ := Parser.description_sound h
  have hreadable := Parser.file_readable (defaults.derivation ++ f)
  rw [(lexes_of_parse h).kinds_eq] at hkinds
  have hmeanings : Lexeme.meanings (Text.ofChars (defaults.text indent ++ cs)) =
      Grammar.File.kinds (defaults.derivation ++ f) := by
    have happend : Grammar.File.kinds (defaults.derivation ++ f) =
        defaults.derivation.kinds ++ f.kinds := List.flatMap_append
    rw [happend, ← hkinds]
    exact Defaults.kindsOf_text indent hspell cs
  have hlexes : (Text.ofChars (defaults.text indent ++ cs)).Lexes := by
    apply lexes_of_meanings
    rw [hmeanings]
    exact fun hinvalid => (hreadable _ hinvalid).1 rfl
  have hkinds' := hlexes.kinds_eq.trans hmeanings
  obtain ⟨d', hd', htree'⟩ := Parser.description_complete hkinds' (hkinds' ▸ hreadable)
    ((Defaults.layouts_derivation defaults f).trans hrows)
  refine ⟨d', ?_, ?_⟩
  · rw [← hd', Text.ofChars, Text.ofChars, ← List.map_append]
    rfl
  · rw [htree', Defaults.tree_derivation, Description.unlocated_behind, htree]

/-! ## 3. Options in force -/

/-- Sorting by name keeps the order of the entries of one name. -/
theorem filter_sorted (values : List (String × String)) (name : String) :
    ((values.mergeSort fun a b => decide (a.1 ≤ b.1)).filter fun v => v.1 = name) =
      values.filter fun v => v.1 = name := by
  have hsub : List.Sublist (values.filter fun v => v.1 = name)
      (values.mergeSort fun a b => decide (a.1 ≤ b.1)) := by
    apply List.sublist_mergeSort
    · intro a b c hab hbc
      exact decide_eq_true (String.le_trans (of_decide_eq_true hab) (of_decide_eq_true hbc))
    · intro a b
      simpa using String.le_total a.1 b.1
    · -- Entries of one name are in order already.
      apply List.pairwise_of_forall_mem_list
      intro v hv w hw
      have hvname : v.1 = name := by simpa using (List.mem_filter.mp hv).2
      have hwname : w.1 = name := by simpa using (List.mem_filter.mp hw).2
      simp [hvname, hwname]
    · exact List.filter_sublist
  have hfilter := hsub.filter fun v => v.1 = name
  rw [List.filter_filter] at hfilter
  simp only [Bool.and_self] at hfilter
  have hperm := (List.mergeSort_perm values fun a b => decide (a.1 ≤ b.1)).filter
    fun v => v.1 = name
  exact (hfilter.eq_of_length hperm.length_eq.symm).symm

/-- The values that defaults have for an option, the one in force last. -/
def Defaults.valuesFor (d : Defaults) (b : Backend) (name : String) : List String :=
  (d.filter (·.backend = b)).flatMap fun t => (t.values.filter fun v => v.1 = name).map (·.2)

namespace OptionTable

theorem linesFor_blocks (d : Defaults) (b : Backend) (name : String) :
    (linesFor d.blocks b name).map (·.value) = d.valuesFor b name := by
  unfold linesFor Defaults.blocks
  rw [List.filter_map, List.flatMap_map, List.map_flatMap]
  simp only [Function.comp_def, DefaultTable.ofName?_block, Option.some.injEq]
  apply List.flatMap_congr
  intro t _
  simp only [DefaultTable.block, DefaultTable.lines, Grammar.optionsTree, List.map_map,
    List.filter_map, Function.comp_def]

theorem defaultsFor_options (d : Defaults) (b : Backend) (name : String) :
    (defaultsFor d.options b name).map (·.value) = d.valuesFor b name := by
  -- The tables of one backend are together, and only those of `b` count.
  have hpart : ∀ b' : Backend, (((d.filter (·.backend = b')).flatMap fun t =>
      (t.values.mergeSort fun a b => decide (a.1 ≤ b.1)).map fun v =>
        (⟨b', v.1, v.2⟩ : DefaultOption)).filter fun o => o.backend = b ∧ o.name = name).map
          (·.value) = if b' = b then d.valuesFor b name else [] := by
    intro b'
    rw [List.filter_flatMap, List.map_flatMap]
    by_cases hb : b' = b
    · subst hb
      rw [if_pos rfl]
      apply List.flatMap_congr
      intro t _
      rw [List.filter_map, List.map_map, ← filter_sorted]
      simp [Function.comp_def]
    · rw [if_neg hb]
      apply List.flatMap_eq_nil_iff.mpr
      intro t _
      rw [List.filter_map, List.map_map]
      simp [Function.comp_def, hb]
  have hall : (Backend.all.flatMap fun b' => if b' = b then d.valuesFor b name else []) =
      d.valuesFor b name := by
    cases b <;> simp [Backend.all]
  unfold defaultsFor Defaults.options
  rw [List.filter_flatMap, List.map_flatMap, ← hall]
  apply List.flatMap_congr
  intro b' _
  exact hpart b'

def SameValues (t t' : OptionTable Backend) : Prop :=
  ∀ b name, (t.get? b name).map (·.value) = (t'.get? b name).map (·.value)

theorem addBlock_pairs {t t' : OptionTable Backend} (h : SameValues t t') (block : OptionsBlock) :
    Pairs SameValues (t.addBlock block) (t'.addBlock block) := by
  unfold addBlock
  apply (Pairs.refl (Backend.resolve block.backend block.backendSpan)).bind
  rintro b _ rfl
  apply Pairs.ok
  intro b' name
  rw [get?_setLines, get?_setLines, Option.map_or, Option.map_or]
  exact congrArg _ (h b' name)

theorem resolve_append (front back : List OptionsBlock) (defaults : List DefaultOption) :
    resolve (front ++ back) defaults = resolve front defaults >>= back.foldlM addBlock :=
  List.foldlM_append

/-- The blocks of defaults name backends, so none of them is refused. -/
theorem resolve_blocks (d : Defaults) : ∃ t, resolve d.blocks [] = .ok t := by
  have hblock : ∀ done block rest (t : OptionTable Backend), done ++ block :: rest = d.blocks →
      True → ∃ t', t.addBlock block = .ok t' ∧ True := by
    intro done block rest t hall _
    have hmem : block ∈ d.blocks := hall ▸ List.mem_append_right done List.mem_cons_self
    obtain ⟨table, -, rfl⟩ := List.mem_map.mp hmem
    unfold addBlock Backend.resolve
    rw [table.ofName?_block]
    exact ⟨_, rfl, trivial⟩
  obtain ⟨t, ht, -⟩ := foldlM_total (P := fun _ _ => True) hblock d.blocks [] rfl trivial
  exact ⟨t, ht⟩

/-- Blocks that set what defaults set can be put in front of other blocks. -/
theorem resolve_blocks_pairs (d : Defaults) (blocks : List OptionsBlock) :
    Pairs SameValues (resolve blocks d.options) (resolve (d.blocks ++ blocks) []) := by
  obtain ⟨t, ht⟩ := resolve_blocks d
  rw [resolve_append, ht]
  apply Pairs.foldlM (fun t t' block h => addBlock_pairs h block)
  intro b name
  have hlast : (linesFor d.blocks b name).getLast?.map (·.value) =
      (defaultsFor d.options b name).getLast?.map (·.value) := by
    rw [← List.getLast?_map, ← List.getLast?_map, linesFor_blocks, defaultsFor_options]
  rw [(inForce_defaults d.options).get?_eq, (resolve_inForce ht).get?_eq, Option.map_or,
    Option.map_or]
  simp only [Option.map_map, Function.comp_def]
  rw [hlast]
  simp [linesFor, defaultsFor]

end OptionTable

/-! ## 4. Compiling -/

theorem Keymap.read_of_parse {source : Text} {d : Description}
    (h : Description.parse source = .ok d) (defaults : List DefaultOption) :
    Keymap.read source defaults = Keymap.resolve d defaults := by
  rw [Keymap.read, h]
  rfl

/-- A description keeps its meaning to every backend when its defaults are written into it. -/
theorem Keymap.resolve_blocks_pairs (d : Description) (defaults : Defaults) :
    Pairs (fun m m' => ∀ b, Keymap.Alike b m m') (Keymap.resolve d defaults.options)
      (Keymap.resolve (d.behind defaults) []) := by
  unfold Keymap.resolve
  apply (OptionTable.resolve_blocks_pairs defaults d.options).bind
  intro options options' hoptions
  apply (Pairs.refl (CustomKeys.resolve d.keys)).bind
  rintro customKeys _ rfl
  apply (Pairs.refl (Layout.resolve d.layout)).bind
  rintro layout _ rfl
  apply (Pairs.refl (Layer.resolveAll layout d.layers)).bind
  rintro layers _ rfl
  apply Pairs.ok
  intro b
  exact ⟨⟨hoptions b, rfl⟩, rfl, rfl⟩

theorem sameResult_of_mapError {x x' : Except Diagnostic String}
    (h : x.mapError Diagnostic.gist = x'.mapError Diagnostic.gist) (origin origin' : Origin) :
    SameResult (quoting origin x) (quoting origin' x') := by
  cases x with
  | ok s =>
    cases x' with
    | ok s' => exact Except.ok.inj h
    | error e => cases h
  | error e =>
    cases x' with
    | ok s => cases h
    | error e' => exact Except.error.inj h

/-- Defaults and options in front of a description compile to the same. -/
theorem emit_behind (d : Description) (defaults : Defaults) {t : Target} (ht : t ≠ .format) :
    (Keymap.resolve d defaults.options >>= t.emit).mapError Diagnostic.gist =
      (Keymap.resolve (d.behind defaults) [] >>= t.emit).mapError Diagnostic.gist := by
  apply (Keymap.resolve_blocks_pairs d defaults).mapError_bind
  intro m m' h
  exact Target.emit_eq_of_alike ht (h t.backend)

/-- Compile a source that can be read with defaults, or write the defaults as options blocks in
front of its bytes and compile without any: the firmware is the same and the diagram is the same, or
both fail with diagnostics that say the same. -/
theorem compile_behind_defaults {source : ByteArray} {d : Description}
    (hparse : Description.parse (Text.ofBytes source) = .ok d) {defaults : Defaults}
    (hspell : ∀ t ∈ defaults, t.Spellable) (indent : Nat) {t : Target} (ht : t ≠ .format)
    (name name' : String) :
    SameResult (compile ⟨name, Text.ofBytes source⟩ defaults.options t)
      (compile ⟨name', Text.ofBytes ((String.ofList (defaults.text indent)).toUTF8 ++ source)⟩
        [] t) := by
  obtain ⟨d', hparse', htree⟩ := parse_behind_defaults hparse indent hspell
  have htext : Text.ofBytes ((String.ofList (defaults.text indent)).toUTF8 ++ source) =
      Text.ofChars (defaults.text indent) ++ Text.ofBytes source := by
    rw [Text.ofBytes_toUTF8_append, Text.ofString, String.toList_ofList]
  rw [htext, compile_eq_quoting, compile_eq_quoting, Keymap.read_of_parse hparse,
    Keymap.read_of_parse hparse']
  apply sameResult_of_mapError
  rw [emit_behind d defaults ht, (resolve_emit_tracks d' [] t).mapError_eq,
    (resolve_emit_tracks (d.behind defaults) [] t).mapError_eq, htree]

/-- One default needs escapes when it is written, and one is overridden. -/
def quotedDefaults : Defaults :=
  [⟨.firmware, [("custom_event", "D")]⟩, ⟨.diagram, [("keyboard", "a\\\"b")]⟩]

def overriding : String :=
  "layout\x7b1k;\x7doptions firmware\x7bcustom_event:\"E\";\x7dlayer l\x7b'1';\x7d"

theorem compile_behind_defaults_overridden : ∃ d,
    Description.parse (Text.ofBytes overriding.toUTF8) = .ok d ∧
      (∀ t ∈ quotedDefaults, t.Spellable) ∧
      ∀ t ≠ Target.format,
        SameResult (compile ⟨"", Text.ofBytes overriding.toUTF8⟩ quotedDefaults.options t)
          (compile ⟨"", Text.ofBytes
            ((String.ofList (quotedDefaults.text 2)).toUTF8 ++ overriding.toUTF8)⟩ [] t) := by
  have hrun : (Description.parse (Text.ofString overriding)).toOption.isSome = true := by
    decide +kernel
  rw [← Text.ofBytes_toUTF8] at hrun
  obtain ⟨d, hd⟩ := Option.isSome_iff_exists.mp hrun
  have hparse := toOption_eq_some_iff.mp hd
  have hstring : ∀ s : String, (s.toList.all fun c => !Lexeme.isLineEnd c) = true →
      (Kind.string s).Spellable := by
    intro s hall c hc
    simpa using List.all_eq_true.mp hall c hc
  have hspell : ∀ t ∈ quotedDefaults, t.Spellable := by
    refine List.forall_mem_cons.mpr ⟨?_, List.forall_mem_singleton.mpr ?_⟩
    · refine List.forall_mem_singleton.mpr ⟨?_, hstring _ rfl⟩
      exact ⟨'c', "ustom_event".toList, rfl, rfl, List.all_eq_true.mp rfl⟩
    · refine List.forall_mem_singleton.mpr ⟨?_, hstring _ rfl⟩
      exact ⟨'k', "eyboard".toList, rfl, rfl, List.all_eq_true.mp rfl⟩
  exact ⟨d, hparse, hspell, fun t ht => compile_behind_defaults hparse hspell 2 ht "" ""⟩

end Keyplan
