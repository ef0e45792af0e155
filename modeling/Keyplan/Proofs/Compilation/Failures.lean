import Keyplan.Proofs.Guarded.Compilation
import Keyplan.Proofs.Located.Resolution

/-!
# Failures — a compilation that fails says where

Compiling ends with an artifact or with a failure that quotes its source. The failure points at a
place, and so do its labels. Only a value that was written nowhere has no place: one that an option
has from the defaults.
-/

namespace Keyplan

open Outcome

namespace Keymap

/-- The value of an option is wrong, and the option has it from the defaults: no line of the
description sets it. -/
def BlamesDefault (m : Keymap) (defaults : List DefaultOption) (d : Diagnostic) : Prop :=
  d.cause = .meaning .invalidOptionValue ∧
    ∃ b name n, m.options.number b name n = .error d ∧
      OptionTable.linesFor m.description.options b name = [] ∧
      OptionTable.defaultsFor defaults b name ≠ []

/-- What reading gives: the places of a keymap, and the options in force. -/
theorem read_meets (source : Text) (defaults : List DefaultOption) :
    Meets Diagnostic.OnRows (fun m => m.description.OnRows ∧ m.OnRows ∧
      OptionTable.InForce m.description.options defaults m.options)
      (Keymap.read source defaults) := by
  refine ((Description.parse_meets source).mono (fun _ h => h.toOnRows) fun _ h => h).bind
    fun d hd => ?_
  refine (Keymap.resolve_meets hd defaults).mono (fun _ h => h.onRows hd) ?_
  rintro m ⟨rfl, hm, hforce⟩
  exact ⟨hd, hm, hforce⟩

variable {m : Keymap} {defaults : List DefaultOption}

/-- A backend that blames an option blames a place on a row, unless it blames a default. -/
theorem blames_number (hd : m.description.OnRows)
    (hforce : OptionTable.InForce m.description.options defaults m.options) {b : Backend}
    {name : String} {n : Int} {d : Diagnostic} (h : m.options.number b name n = .error d) :
    d.OnRows ∨ m.BlamesDefault defaults d := by
  obtain ⟨-, -, hcause, -, hlabels⟩ := OptionTable.number_eq_error h
  rcases hforce.number_eq_error h with ⟨l, hl, hspan⟩ | ⟨hlines, hdefaults, -⟩
  · obtain ⟨block, hblock, hl⟩ := OptionTable.mem_linesFor hl
    have hline : l.outline.Everywhere Span.OnRow :=
      (hd.options block hblock).part (List.mem_cons_of_mem _ (List.mem_map_of_mem hl))
    have hvalue : l.valueSpan.OnRow :=
      (hline.part (List.mem_cons_of_mem _ List.mem_cons_self)).here
    exact .inl (Diagnostic.onRows_of_span (hspan ▸ hvalue) hlabels)
  · exact .inr ⟨hcause, b, name, n, h, hlines, hdefaults⟩

theorem BlamesDefault.span_eq
    (hforce : OptionTable.InForce m.description.options defaults m.options) {d : Diagnostic}
    (h : m.BlamesDefault defaults d) : d.span = {} := by
  obtain ⟨-, b, name, n, herror, hlines, -⟩ := h
  rcases hforce.number_eq_error herror with ⟨l, hl, -⟩ | ⟨-, -, hspan⟩
  · rw [hlines] at hl
    cases hl
  · exact hspan

end Keymap

theorem emit_meets_read (source : Text) (defaults : List DefaultOption) (t : Target) :
    Meets (fun d => d.OnRows ∨ (∃ m, Keymap.read source defaults = .ok m ∧
        m.BlamesDefault defaults d) ∧ d.labels = [])
      (fun _ => True) (Keymap.read source defaults >>= t.emit) := by
  have hread := Keymap.read_meets source defaults
  cases hm : Keymap.read source defaults with
  | error d =>
    rw [hm] at hread
    exact .inl hread
  | ok m =>
    rw [hm] at hread
    obtain ⟨hd, honRows, hforce⟩ := hread
    refine (t.emit_meets honRows).mono ?_ fun _ h => h
    rintro d (hrows | ⟨b, name, n, hnumber⟩)
    · exact .inl hrows
    · obtain ⟨-, -, -, -, hlabels⟩ := OptionTable.number_eq_error hnumber
      rcases Keymap.blames_number hd hforce hnumber with hrows | hblames
      · exact .inl hrows
      · exact .inr ⟨⟨m, rfl, hblames⟩, hlabels⟩

/-- Whatever bytes a source has, compiling it ends with an artifact or with a failure that quotes
the source. All labels of the failure are located, and so is the failure itself, except exactly when
it blames the value that an option has from the defaults. -/
theorem compile_failures_located (origin : Origin) (defaults : List DefaultOption) (t : Target) :
    Guarded.compile origin defaults t = some (compile origin defaults t) ∧
    ∀ f, compile origin defaults t = .error f →
      f.origin = origin ∧ (∀ l ∈ f.diagnostic.labels, l.span.Located) ∧
      (¬ f.diagnostic.span.Located ↔
        ∃ m, Keymap.read origin.text defaults = .ok m ∧ m.BlamesDefault defaults f.diagnostic) := by
  constructor
  · rw [Guarded.compile, Guarded.read_emit_eq, compile_eq_quoting]
    rfl
  · intro f hf
    rw [compile_eq_quoting] at hf
    have hmeets := emit_meets_read origin.text defaults t
    cases hrun : Keymap.read origin.text defaults >>= t.emit with
    | ok out =>
      rw [hrun] at hf
      cases hf
    | error d =>
      -- The diagnostic is on rows, or it blames a default and has no labels.
      rw [hrun] at hf hmeets
      obtain rfl : (⟨d, origin⟩ : Failure) = f := Except.error.inj hf
      refine ⟨rfl, ?_, ?_, ?_⟩
      · intro l hl
        rcases hmeets with hrows | ⟨-, hlabels⟩
        · exact (hrows.labels l hl).located
        · have hnone : d.labels = [] := hlabels
          rw [hnone] at hl
          cases hl
      · intro hnot
        rcases hmeets with hrows | ⟨hblames, -⟩
        · exact absurd hrows.span.located hnot
        · exact hblames
      · rintro ⟨m, hm, hblames⟩ hlocated
        have hread := Keymap.read_meets origin.text defaults
        rw [hm] at hread
        have hspan : d.span = {} := hblames.span_eq hread.2.2
        rw [hspan] at hlocated
        cases hlocated.1

def loneKey : Origin where
  text := Text.ofString "layout \x7b 1k; \x7d"

/-- A default that is no number has no place, and nothing but the default is blamed. -/
theorem compile_failures_located_badDefault :
    ∃ f, compile loneKey [⟨.formatter, "indent", "x"⟩] .format = .error f ∧
      ¬ f.diagnostic.span.Located ∧
      ∃ m, Keymap.read loneKey.text [⟨.formatter, "indent", "x"⟩] = .ok m ∧
        m.BlamesDefault [⟨.formatter, "indent", "x"⟩] f.diagnostic := by
  have hrun : (match compile loneKey [⟨.formatter, "indent", "x"⟩] .format with
      | .ok _ => false
      | .error f => f.diagnostic.span.isZero) = true := by decide +kernel
  cases hf : compile loneKey [⟨.formatter, "indent", "x"⟩] .format with
  | ok out =>
    rw [hf] at hrun
    cases hrun
  | error f =>
    rw [hf] at hrun
    have hzero : ¬ f.diagnostic.span.Located := by
      intro h
      exact absurd (h.1.symm.trans hrun) (by decide)
    exact ⟨f, rfl, hzero, ((compile_failures_located _ _ _).2 f hf).2.2.mp hzero⟩

end Keyplan
