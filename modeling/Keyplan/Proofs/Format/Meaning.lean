import Keyplan.Proofs.Format.Reading
import Keyplan.Proofs.Keymap.Backends
import Keyplan.Proofs.Text

/-!
# Meaning — formatting changes none

The canonical form of a description that compiles loads again, and means the same: up to places
and to the quotes of character keys it has the same keymap, and so the same firmware and the same
diagram.
-/

namespace Keyplan

open Outcome

/-! ## Compiling what was formatted -/

theorem quoting_eq_ok_iff {α : Type} {origin : Origin} {x : Except Diagnostic α} {a : α} :
    quoting origin x = .ok a ↔ x = .ok a := by
  cases x <;> simp [quoting, Except.mapError]

/-- The same text, or failures that say the same, wherever they point to. -/
def SameResult : Except Failure String → Except Failure String → Prop
  | .ok s, .ok s' => s = s'
  | .error e, .error e' => e.diagnostic.gist = e'.diagnostic.gist
  | _, _ => False

/-- Outcomes that are both tracked by a third one are the same result. -/
theorem sameResult_of_tracks {x x' y : Except Diagnostic String}
    (h : Tracks (fun d e => d.gist = e) id x y) (h' : Tracks (fun d e => d.gist = e) id x' y)
    (origin origin' : Origin) : SameResult (quoting origin x) (quoting origin' x') := by
  cases h with
  | ok s =>
    cases h' with
    | ok s' => rfl
  | error hd =>
    cases h' with
    | error hd' => exact hd.trans hd'.symm

/-- Keymaps that mean the same compile to the same, except to the canonical form. -/
theorem sameResult_emit {t : Target} (ht : t ≠ .format) {m m' : Keymap} (h : m.bare = m'.bare)
    (origin origin' : Origin) :
    SameResult (quoting origin (t.emit m)) (quoting origin' (t.emit m')) := by
  have htracks := fun m => Target.emit_tracks (E := fun d e => d.gist = e) (fun _ => rfl)
    onlyQuotes_unquoted ht m
  have hm' := htracks m'
  rw [show m'.forget PlainKey.Meaning.unquoted = m.forget _ from h.symm] at hm'
  exact sameResult_of_tracks (htracks m) hm' origin origin'

/-- Formatting preserves meaning: whatever compiles to its canonical form can be loaded again from
the bytes of that form, with the same defaults. The keymap is the same up to places and quotes, and
the firmware and the diagram are the same, or fail with diagnostics that say the same. -/
theorem compile_of_formatted {origin : Origin} {defaults : List DefaultOption} {out : String}
    (hformat : compile origin defaults .format = .ok out) (name : String) :
    ∃ m m', load origin defaults = .ok m ∧
      load ⟨name, Text.ofBytes out.toUTF8⟩ defaults = .ok m' ∧ m'.bare = m.bare ∧
      ∀ t, t ≠ .format → SameResult (compile ⟨name, Text.ofBytes out.toUTF8⟩ defaults t)
        (compile origin defaults t) := by
  obtain ⟨m, hload, hemit⟩ := bind_eq_ok_iff.mp hformat
  have hread := quoting_eq_ok_iff.mp hload
  have hemit := quoting_eq_ok_iff.mp hemit
  obtain ⟨cs, hcs, rfl⟩ : ∃ cs, Format.format m = .ok cs ∧ String.ofList cs = out := by
    cases hcs : Format.format m with
    | error d => simp [Target.emit, hcs, Except.map] at hemit
    | ok cs => exact ⟨cs, rfl, by simpa [Target.emit, hcs, Except.map] using hemit⟩
  obtain ⟨f, rows, d, htree, hparse, htree'⟩ := Format.parse_format hread hcs
  -- What was read and what is read from its canonical form mean the same.
  have hbare : m.description.bare = d.bare := by
    rw [← Description.bare_unlocated, htree, ← Description.bare_unlocated d, htree',
      Grammar.File.canonical_bare]
  obtain ⟨d₀, hparse₀, hresolve⟩ := bind_eq_ok_iff.mp hread
  obtain ⟨rfl, -, -⟩ := Keymap.resolve_eq_ok hresolve
  -- Resolving looks at neither, so it succeeds again.
  obtain ⟨m', hresolve', hm'⟩ := Keymap.resolve_of_bare hbare hresolve
  have hload' : load ⟨name, Text.ofBytes (String.ofList cs).toUTF8⟩ defaults = .ok m' := by
    -- The bytes of the form are read as its characters.
    refine quoting_eq_ok_iff.mpr (bind_eq_ok_iff.mpr ⟨d, ?_, hresolve'⟩)
    rw [Text.ofBytes_toUTF8, Text.ofString, String.toList_ofList]
    exact hparse
  refine ⟨m, m', hload, hload', hm', fun t ht => ?_⟩
  unfold compile
  rw [hload', hload]
  exact sameResult_emit ht hm' _ _

/-- A quote that has to change, a timeout of zero and a chord. -/
theorem compile_of_formatted_chord : ∃ out m m',
    compile ⟨"", Text.ofString "layout \x7b 2k; \x7d layer l \x7b '\\'@~[l][0] >\"'\"< x; \x7d"⟩ []
        .format = .ok out ∧
      load ⟨"", Text.ofBytes out.toUTF8⟩ [] = .ok m' ∧ m'.bare = Keymap.bare m := by
  have hrun : (compile ⟨"", Text.ofString
      "layout \x7b 2k; \x7d layer l \x7b '\\'@~[l][0] >\"'\"< x; \x7d"⟩ []
        .format).toOption.isSome = true := by
    decide +kernel
  obtain ⟨out, hout⟩ := Option.isSome_iff_exists.mp hrun
  have hformat := toOption_eq_some_iff.mp hout
  obtain ⟨m, m', -, hload, hbare, -⟩ := compile_of_formatted hformat ""
  exact ⟨out, m, m', hformat, hload, hbare⟩

end Keyplan
