import Keyplan.Proofs.Format.Meaning

/-!
# Idempotence — the canonical form is its own canonical form

What is written for a keymap depends on how its keys are spelled, not on the quotes they were
written with. The canonical form of a description may change the quotes, but to those that the
spelling of the keys shows already. So a keymap and the one read back from its canonical form are
written alike.
-/

namespace Keyplan

open PlainKey (Meaning quoteFor)
open Outcome

/-! ## 1. The quotes that are written -/

/-- What a plain key means, with the quote that it is spelled with. -/
def PlainKey.Meaning.requoted : Meaning → Meaning
  | char c quote => char c (some (quoteFor c quote))
  | meaning => meaning

theorem PlainKey.Meaning.spelling_requoted (meaning : Meaning) :
    meaning.requoted.spelling = meaning.spelling := by
  cases meaning with
  | named name => rfl
  | layer name => rfl
  | char c quote =>
    show [_, c, _] = [_, c, _]
    rw [Grammar.quoteFor_quoteFor]

theorem ignoresRequoting_requoted : Grammar.IgnoresRequoting Meaning.requoted := by
  intro c quote
  show Meaning.char c (some _) = Meaning.char c (some _)
  rw [Grammar.quoteFor_quoteFor]

/-! ## 2. What is written depends on the spelling of keys -/

namespace Format

variable {f : Meaning → Meaning}

theorem columnWidths_forget (hf : ∀ meaning, (f meaning).spelling = meaning.spelling)
    (m : Keymap) : columnWidths (m.forget f) = columnWidths m := by
  have hkey := Key.spelling_forget hf
  have hchord := Chord.spelling_forget hf
  simp [columnWidths, chordColumn?, Keymap.forget, Layer.forget, PlacedKey.forget,
    PlacedChord.forget, List.flatMap_map, Function.comp_def, hkey, hchord]

theorem textsAt_forget (hf : ∀ meaning, (f meaning).spelling = meaning.spelling)
    (keys : List PlacedKey) (chords : List PlacedChord) (p : LayoutPos) :
    textsAt (keys.map (PlacedKey.forget f)) (chords.map (PlacedChord.forget f)) p =
      textsAt keys chords p := by
  have hkey := Key.spelling_forget hf
  have hchord := Chord.spelling_forget hf
  -- The same key and the same chord are found, since positions are kept.
  have hkeys : (keys.map (PlacedKey.forget f)).find? (fun k => decide (k.layout = p)) =
      (keys.find? fun k => decide (k.layout = p)).map (PlacedKey.forget f) := List.find?_map
  have hchords : (chords.map (PlacedChord.forget f)).find? (fun c => decide (c.leftLayout = p)) =
      (chords.find? fun c => decide (c.leftLayout = p)).map (PlacedChord.forget f) :=
    List.find?_map
  simp [textsAt, hkeys, hchords, Function.comp_def, PlacedKey.forget, PlacedChord.forget, hkey,
    hchord]

theorem layerLine_forget (hf : ∀ meaning, (f meaning).spelling = meaning.spelling)
    (layout : Layout) (widths : List ColumnWidth) (row : Nat) (keys : List PlacedKey)
    (chords : List PlacedChord) :
    layerLine layout widths row (keys.map (PlacedKey.forget f))
        (chords.map (PlacedChord.forget f)) =
      layerLine layout widths row keys chords := by
  have htexts := funext (textsAt_forget hf keys chords)
  rw [layerLine_eq, layerLine_eq, lineTexts, lineTexts, htexts]

theorem layerText_forget (hf : ∀ meaning, (f meaning).spelling = meaning.spelling)
    (indent : List Char) (m : Keymap) (l : Layer) :
    layerText indent (m.forget f) (l.forget f) = layerText indent m l := by
  unfold layerText layerLines
  rw [columnWidths_forget hf]
  simp only [Layer.forget, List.filter_map]
  simp only [Keymap.forget, layerLine_forget hf, Function.comp_def, PlacedKey.forget,
    PlacedChord.forget]

theorem blocks_forget (hf : ∀ meaning, (f meaning).spelling = meaning.spelling) (m : Keymap)
    (indent : List Char) : blocks (m.forget f) indent = blocks m indent := by
  have hblocks : ∀ m : Keymap, blocks m indent =
      [block indent "layout".toList (m.description.layout.rows.map layoutLine)]
        ++ m.description.options.map (optionsText indent)
        ++ m.description.keys.map (declarationText indent)
        ++ m.layers.map (layerText indent m) := fun _ => rfl
  have hlayers : (m.layers.map (Layer.forget f)).map (layerText indent (m.forget f)) =
      m.layers.map (layerText indent m) := by
    rw [List.map_map]
    exact List.map_congr_left fun l _ => layerText_forget hf indent m l
  have hlayout : (m.forget f).description.layout.rows.map layoutLine =
      m.description.layout.rows.map layoutLine := by
    show (m.description.layout.rows.map LayoutRow.unlocated).map layoutLine = _
    simp [layoutLine_unlocated]
  have hoptions : (m.forget f).description.options.map (optionsText indent) =
      m.description.options.map (optionsText indent) := by
    show (m.description.options.map OptionsBlock.unlocated).map (optionsText indent) = _
    simp [optionsText_unlocated]
  have hkeys : (m.forget f).description.keys.map (declarationText indent) =
      m.description.keys.map (declarationText indent) := by
    show (m.description.keys.map KeyDeclaration.unlocated).map (declarationText indent) = _
    simp [declarationText_unlocated]
  rw [hblocks, hblocks, hlayout, hoptions, hkeys]
  exact congrArg _ hlayers

/-- A keymap is written as one whose keys are spelled the same. -/
theorem format_tracks {E : Diagnostic → Diagnostic → Prop} (hE : ∀ d : Diagnostic, E d d.gist)
    (hf : ∀ meaning, (f meaning).spelling = meaning.spelling) (m : Keymap) :
    Tracks E id (format m) (format (m.forget f)) := by
  unfold format
  refine (OptionTable.number_tracks hE m.options _ _ _).bind fun indent => .pure ?_
  rw [blocks_forget hf]
  rfl

/-! ## 3. Writing what was read back -/

/-- The canonical form of a keymap that was read is read back as a description that is spelled the
same. -/
theorem read_format {source : Text} {defaults : List DefaultOption} {m : Keymap}
    {out : List Char} (hread : Keymap.read source defaults = .ok m) (hformat : format m = .ok out) :
    ∃ m', Keymap.read (Text.ofChars out) defaults = .ok m' ∧
      m'.forget Meaning.requoted = m.forget Meaning.requoted := by
  obtain ⟨file, rows, d, htree, hparse, htree'⟩ := parse_format hread hformat
  obtain ⟨d₀, hparse₀, hresolve⟩ := bind_eq_ok_iff.mp hread
  obtain ⟨rfl, -, -⟩ := Keymap.resolve_eq_ok hresolve
  -- Places are forgotten on both sides before the derivations are compared.
  have hunlocated : ∀ d : Description,
      d.unlocated.forget Meaning.requoted = d.forget Meaning.requoted := by
    intro d
    rw [Description.unlocated, Description.forget_forget, Function.comp_id]
  have hspelled : m.description.forget Meaning.requoted = d.forget Meaning.requoted := by
    rw [← hunlocated, htree, ← hunlocated d, htree',
      Grammar.File.canonical_forget ignoresRequoting_requoted]
  obtain ⟨m', hresolve', hm'⟩ := Keymap.resolve_of_forget hspelled hresolve
  exact ⟨m', bind_eq_ok_iff.mpr ⟨d, hparse, hresolve'⟩, hm'⟩

theorem format_of_forget (hf : ∀ meaning, (f meaning).spelling = meaning.spelling)
    {m m' : Keymap} (h : m'.forget f = m.forget f) {out : List Char}
    (hformat : format m = .ok out) : format m' = .ok out := by
  have htracks := format_tracks (E := fun _ _ => True) (fun _ => trivial) hf
  have hforget := (htracks m).of_ok hformat
  rw [← h] at hforget
  obtain ⟨out', hout', rfl⟩ := (htracks m').ok_of hforget
  exact hout'

end Format

/-! ## 4. Compiling -/

theorem compile_format_eq_ok_iff {origin : Origin} {defaults : List DefaultOption}
    {out : String} :
    compile origin defaults .format = .ok out ↔
      ∃ m, Keymap.read origin.text defaults = .ok m ∧ Format.format m = .ok out.toList := by
  unfold compile load
  simp only [bind_eq_ok_iff, quoting_eq_ok_iff, Target.emit]
  refine exists_congr fun m => and_congr_right fun _ => ?_
  cases Format.format m with
  | error d => simp [Except.map]
  | ok cs =>
    simp only [Except.map, Except.ok.injEq]
    constructor
    · rintro rfl
      simp
    · rintro rfl
      simp

/-- Formatting is idempotent: the canonical form of a description is compiled to itself. -/
theorem compile_format_idempotent {origin : Origin} {defaults : List DefaultOption} {out : String}
    (hformat : compile origin defaults .format = .ok out) (name : String) :
    compile ⟨name, Text.ofBytes out.toUTF8⟩ defaults .format = .ok out := by
  obtain ⟨m, hread, hout⟩ := compile_format_eq_ok_iff.mp hformat
  obtain ⟨m', hread', hm'⟩ := Format.read_format hread hout
  apply compile_format_eq_ok_iff.mpr
  refine ⟨m', ?_, Format.format_of_forget Meaning.spelling_requoted hm' hout⟩
  -- The bytes of the form are read as its characters.
  show Keymap.read (Text.ofBytes out.toUTF8) defaults = .ok m'
  rw [Text.ofBytes_toUTF8]
  exact hread'

/-- A single quote and a backslash that need other quotes, a timeout of zero and a chord. -/
theorem compile_format_idempotent_requoted : ∃ out,
    compile ⟨"", Text.ofString
        "layout \x7b 2k; \x7d layer l \x7b '''@~[l][0] >\"\\\\\"< x; \x7d"⟩ [] .format = .ok out ∧
      compile ⟨"", Text.ofBytes out.toUTF8⟩ [] .format = .ok out := by
  have hrun : (compile ⟨"", Text.ofString
      "layout \x7b 2k; \x7d layer l \x7b '''@~[l][0] >\"\\\\\"< x; \x7d"⟩ []
        .format).toOption.isSome = true := by
    decide +kernel
  obtain ⟨out, hout⟩ := Option.isSome_iff_exists.mp hrun
  have hformat := toOption_eq_some_iff.mp hout
  exact ⟨out, hformat, compile_format_idempotent hformat ""⟩

end Keyplan
