import Keyplan.Proofs.Compilation.Failures
import Keyplan.Proofs.Keymap.KeyNames
import Keyplan.Proofs.Suggestion

/-!
# Suggested names — a failed lookup says what would have been found

Compiling looks up the names of backends while it reads, and the names of layers and keys while it
builds. When such a name is not found, the suggestions are the names with which the same lookup
succeeds, as far as they are close to the name that was written.
-/

namespace Keyplan

open Outcome
open Suggestion (Answers didYouMean_answers)

/-- A description names a backend at a place: in an options block or in a line of a key. -/
def Description.NamesBackend (d : Description) (name : String) (span : Span) : Prop :=
  (∃ block ∈ d.options, block.backend = name ∧ block.backendSpan = span) ∨
    ∃ key ∈ d.keys, ∃ out ∈ key.outputs, out.backend = name ∧ out.backendSpan = span

namespace Keymap

variable {source : Text} {defaults : List DefaultOption}

/-! ## 1. Lookups that fail -/

/-- Reading looks up nothing but the names of backends. -/
theorem read_looksUp {e : Diagnostic} (h : Keymap.read source defaults = .error e)
    (hlookup : e.cause.isLookup = true) :
    ∃ d, Description.parse source = .ok d ∧
      ∃ name span, d.NamesBackend name span ∧ Backend.resolve name span = .error e := by
  have hform : ¬ e.Structural := by
    intro hstructural
    rw [hstructural.noLookup] at hlookup
    cases hlookup
  have hparse := Description.parse_meets source
  unfold Keymap.read at h
  cases hd : Description.parse source with
  | error e' =>
    rw [hd] at h hparse
    obtain rfl := Except.error.inj h
    exact absurd hparse hform
  | ok d =>
    rw [hd] at h hparse
    have hresolve := Keymap.resolve_meets hparse defaults
    rw [show Keymap.resolve d defaults = .error e from h] at hresolve
    refine ⟨d, rfl, ?_⟩
    cases hresolve with
    | structural hstructural => exact absurd hstructural hform
    | @block block written refused => exact ⟨_, _, .inl ⟨block, written, rfl, rfl⟩, refused⟩
    | @output key out declared written refused =>
      exact ⟨_, _, .inr ⟨key, declared, out, written, rfl, rfl⟩, refused⟩

/-- A backend looks up the plain keys that the description writes. -/
theorem emit_looksUp {m : Keymap} (hm : Keymap.read source defaults = .ok m) {t : Target}
    {e : Diagnostic} (h : t.emit m = .error e) (hlookup : e.cause.isLookup = true) :
    ∃ p ∈ m.description.plainKeys, m.Refuses t.backend p e := by
  have hread := Keymap.read_meets source defaults
  rw [hm] at hread
  have hfails := t.emit_fails m
  rw [h] at hfails
  rcases hfails.cases_structural hread.2.1 with hform | ⟨name, n, hnumber⟩ | hkey
  · rw [hform.noLookup] at hlookup
    cases hlookup
  · obtain ⟨-, -, hcause, -, -⟩ := OptionTable.number_eq_error hnumber
    rw [hcause] at hlookup
    cases hlookup
  · obtain ⟨l, hl, k, hk, p, hp, hrefused⟩ := hkey
    rw [(wellFormed_of_read hm).plainKeys_eq]
    exact ⟨p, List.mem_flatMap.mpr ⟨l, hl, List.mem_flatMap.mpr ⟨k, hk, hp⟩⟩, hrefused⟩

end Keymap

theorem compile_looksUp {origin : Origin} {defaults : List DefaultOption} {t : Target}
    {f : Failure} (h : compile origin defaults t = .error f)
    (hlookup : f.diagnostic.cause.isLookup = true) :
    (∃ d, Description.parse origin.text = .ok d ∧
      ∃ name span, d.NamesBackend name span ∧ Backend.resolve name span = .error f.diagnostic) ∨
    ∃ m, Keymap.read origin.text defaults = .ok m ∧
      ∃ p ∈ m.description.plainKeys, m.Refuses t.backend p f.diagnostic := by
  rw [compile_eq_quoting] at h
  cases hrun : Keymap.read origin.text defaults >>= t.emit with
  | ok out =>
    rw [hrun] at h
    cases h
  | error e =>
    rw [hrun] at h
    obtain rfl : (⟨e, origin⟩ : Failure) = f := Except.error.inj h
    rcases bind_eq_error_iff.mp hrun with hread | ⟨m, hm, hemit⟩
    · exact .inl (Keymap.read_looksUp hread hlookup)
    · exact .inr ⟨m, hm, Keymap.emit_looksUp hm hemit hlookup⟩

/-! ## 2. What is suggested -/

theorem Backend.resolve_answers {name : String} {span : Span} {e : Diagnostic}
    (h : Backend.resolve name span = .error e) :
    e.cause = .meaning .unknownBackend ∧ e.detail = name ∧ e.span = span ∧
      Answers Backend.names (fun s => ∃ b, Backend.resolve s span = .ok b) name e.suggestions := by
  obtain rfl := Backend.resolve_eq_error h
  refine ⟨rfl, rfl, rfl, didYouMean_answers ?_ ?_⟩
  · exact fun s => (Backend.resolve_decides s span).succeeds_iff.symm
  · rintro ⟨b, hb⟩
    rw [h] at hb
    cases hb

namespace Keymap

variable {m : Keymap}

theorem resolveLayer_answers (hm : m.WellFormed) {name : String} {span : Span} {e : Diagnostic}
    (h : m.resolveLayer name span = .error e) :
    e.cause = .meaning .unknownLayer ∧ e.detail = name ∧ e.span = span ∧
      Answers (m.description.layers.map (·.name))
        (fun s => ∃ i, m.resolveLayer s span = .ok i) name e.suggestions := by
  obtain rfl := resolveLayer_eq_error h
  rw [← hm.layerNames_eq]
  refine ⟨rfl, rfl, rfl, didYouMean_answers ?_ ?_⟩
  · intro s
    rw [accepts_iff (Checks.one (m.complaint?_resolveLayer .firmware s span)), fault?]
    by_cases hs : s ∈ m.layerNames
    · simp [hs]
    · simp [hs]
  · rintro ⟨i, hi⟩
    rw [h] at hi
    cases hi

theorem resolveName_answers {b : Backend} {name : String} {span : Span} {e : Diagnostic}
    (h : m.resolveName b name span = .error e) :
    e.cause = .meaning .unknownNamedKey ∧
      e.detail = s!"{name} has no meaning for the {b.name} backend" ∧ e.span = span ∧
      Answers (m.keyNames b) (fun s => ∃ meaning, m.resolveName b s span = .ok meaning) name
        e.suggestions := by
  obtain rfl := resolveName_eq_error h
  refine ⟨rfl, rfl, rfl, didYouMean_answers ?_ ?_⟩
  · exact fun s => mem_keyNames_iff_accepts (Checks.one (m.complaint?_resolveName b s span))
  · rintro ⟨meaning, hmeaning⟩
    rw [h] at hmeaning
    cases hmeaning

end Keymap

/-- What compiling a description suggests when it fails for an unknown name. An unknown backend was
named in an options block or in a line of a key; the suggestions are the close names of backends. An
unknown layer was referred to by a key; they are the close names of the declared layers. An unknown
key was written in a layer; they are the close names among those that the failing backend
understands. No name is suggested twice, the unknown name is not suggested, and with any of the
suggestions in its place the lookup that failed succeeds. -/
theorem compile_suggests {origin : Origin} {defaults : List DefaultOption} {t : Target}
    {f : Failure} (h : compile origin defaults t = .error f) :
    (f.diagnostic.cause = .meaning .unknownBackend →
      ∃ d name, Description.parse origin.text = .ok d ∧
        d.NamesBackend name f.diagnostic.span ∧ f.diagnostic.detail = name ∧
        Backend.resolve name f.diagnostic.span = .error f.diagnostic ∧
        Answers Backend.names (fun s => ∃ b, Backend.resolve s f.diagnostic.span = .ok b) name
          f.diagnostic.suggestions) ∧
    (f.diagnostic.cause = .meaning .unknownLayer →
      ∃ m k name, Keymap.read origin.text defaults = .ok m ∧ k ∈ m.description.plainKeys ∧
        k.meaning = .layer name ∧ f.diagnostic.detail = name ∧ f.diagnostic.span = k.span ∧
        m.resolveLayer name k.span = .error f.diagnostic ∧
        Answers (m.description.layers.map (·.name))
          (fun s => ∃ i, m.resolveLayer s k.span = .ok i) name f.diagnostic.suggestions) ∧
    (f.diagnostic.cause = .meaning .unknownNamedKey →
      ∃ m k name, Keymap.read origin.text defaults = .ok m ∧ k ∈ m.description.plainKeys ∧
        k.meaning = .named name ∧ f.diagnostic.span = k.span ∧
        f.diagnostic.detail = s!"{name} has no meaning for the {t.backend.name} backend" ∧
        m.resolveName t.backend name k.span = .error f.diagnostic ∧
        Answers (m.keyNames t.backend)
          (fun s => ∃ meaning, m.resolveName t.backend s k.span = .ok meaning) name
          f.diagnostic.suggestions) := by
  cases hlookup : f.diagnostic.cause.isLookup with
  | false =>
    -- None of the three causes is left.
    refine ⟨?_, ?_, ?_⟩
    all_goals
      intro hcause
      rw [hcause] at hlookup
      cases hlookup
  | true =>
    rcases compile_looksUp h hlookup with hread | hemit
    · obtain ⟨d, hd, name, span, hnames, hrefused⟩ := hread
      obtain ⟨hcause, hdetail, rfl, hanswers⟩ := Backend.resolve_answers hrefused
      refine ⟨fun _ => ⟨d, name, hd, hnames, hdetail, hrefused, hanswers⟩, ?_, ?_⟩
      · intro hother
        exact absurd (hcause.symm.trans hother) (by decide)
      · intro hother
        exact absurd (hcause.symm.trans hother) (by decide)
    · obtain ⟨m, hm, k, hk, hkey⟩ := hemit
      cases hkey with
      | @layer name meaning refused =>
        obtain ⟨hcause, hdetail, hspan, hanswers⟩ :=
          Keymap.resolveLayer_answers (Keymap.wellFormed_of_read hm) refused
        refine ⟨?_, fun _ => ?_, ?_⟩
        · intro hother
          exact absurd (hcause.symm.trans hother) (by decide)
        · exact ⟨m, k, name, hm, hk, meaning, hdetail, hspan, refused, hanswers⟩
        · intro hother
          exact absurd (hcause.symm.trans hother) (by decide)
      | char meaning refused =>
        rw [Keymap.resolveChar_eq_error refused] at hlookup
        cases hlookup
      | @named name meaning refused =>
        obtain ⟨hcause, hdetail, hspan, hanswers⟩ := Keymap.resolveName_answers refused
        refine ⟨?_, ?_, fun _ => ?_⟩
        · intro hother
          exact absurd (hcause.symm.trans hother) (by decide)
        · intro hother
          exact absurd (hcause.symm.trans hother) (by decide)
        · exact ⟨m, k, name, hm, hk, meaning, hspan, hdetail, refused, hanswers⟩

/-- A chord that refers to a layer by a name that lacks its last letter. -/
def shortReference : Origin where
  text := Text.ofString ("layout\x7b2k;\x7dkey a\x7bout firmware:\"A\";\x7d" ++
    "layer base\x7ba>[bas]<a;\x7dlayer x\x7ba a;\x7d")

theorem compile_suggests_shortReference : ∃ f m k,
    compile shortReference [] .firmware = .error f ∧
      Keymap.read shortReference.text [] = .ok m ∧ k ∈ m.description.plainKeys ∧
      f.diagnostic.cause = .meaning .unknownLayer ∧ "base" ∈ f.diagnostic.suggestions ∧
      "x" ∉ f.diagnostic.suggestions ∧ ∃ i, m.resolveLayer "base" k.span = .ok i := by
  have hrun : (match compile shortReference [] .firmware with
      | .ok _ => false
      | .error f => decide (f.diagnostic.cause = .meaning .unknownLayer ∧
          f.diagnostic.detail = "bas")) = true := by
    decide +kernel
  have hnames : (Keymap.read shortReference.text []).toOption.map
      (·.description.layers.map (·.name)) = some ["base", "x"] := by
    decide +kernel
  cases hf : compile shortReference [] .firmware with
  | ok out =>
    rw [hf] at hrun
    cases hrun
  | error f =>
    rw [hf] at hrun
    obtain ⟨hcause, hdetail⟩ := of_decide_eq_true hrun
    obtain ⟨m, k, name, hm, hk, -, hname, -, -, hanswers⟩ := (compile_suggests hf).2.1 hcause
    obtain rfl : name = "bas" := hname.symm.trans hdetail
    rw [hm] at hnames
    have hlayers : m.description.layers.map (·.name) = ["base", "x"] := Option.some.inj hnames
    rw [hlayers] at hanswers
    have hclose : Suggestion.Close "bas" "base" := by
      unfold Suggestion.Close
      decide +kernel
    have hfar : ¬ Suggestion.Close "bas" "x" := by
      unfold Suggestion.Close
      decide +kernel
    have hbase := (hanswers.mem_iff "base").mpr ⟨List.mem_cons_self, hclose⟩
    exact ⟨f, m, k, rfl, hm, hk, hcause, hbase, fun hx => hfar ((hanswers.mem_iff "x").mp hx).2,
      hanswers.found "base" hbase⟩

end Keyplan
