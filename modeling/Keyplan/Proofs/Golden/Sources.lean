import Keyplan.Proofs.Compilation.Regrouping
import Keyplan.Proofs.Golden.Delimiters
import Keyplan.Proofs.Token.Order

/-!
# Sources — the lines of a source that is read

In a source that can be read a dash stands between quotes, so no line of it is a delimiter. Only the
lexeme that ends a line has a line end in it. So the lexemes of a line do not depend on how it ends,
and a source means the same without the carriage returns before its line feeds.
-/

namespace Keyplan

open Lexeme Pattern Outcome
open Text (lineFeed carriageReturn ofChars allLines dropReturn)
open Golden (InLine OneLine DashQuoted dash)
open Token (Kind)

/-! ## 1. Characters of lexemes -/

namespace LexClass

theorem isLineEnd_of_class {p : Char → Bool} {c : Char} (hc : p c) (hfeed : p '\n' = false)
    (hreturn : p '\r' = false) : isLineEnd c = false := by
  simp [isLineEnd, Token.ne_of_class hc _ hfeed, Token.ne_of_class hc _ hreturn]

theorem not_lineEnd_of_run {p q : Char → Bool} (hp : p '\n' = false ∧ p '\r' = false)
    (hq : q '\n' = false ∧ q '\r' = false) {w : List Char} (h : w ∈ one p * KStar.kstar (one q)) :
    InLine w := by
  obtain ⟨c, cs, hc, hcs, rfl⟩ := mem_run.mp h
  refine List.forall_mem_cons.mpr ⟨isLineEnd_of_class hc hp.1 hp.2, ?_⟩
  exact fun d hd => isLineEnd_of_class (hcs d hd) hq.1 hq.2

theorem not_lineEnd_of_inside {w : List Char} (h : w ∈ KStar.kstar inside) : InLine w := by
  obtain ⟨ws, rfl, hws⟩ := Language.mem_kstar.mp h
  intro c hc
  obtain ⟨v, hv, hcv⟩ := List.mem_flatten.mp hc
  rcases mem_inside (hws v hv) with ⟨d, hd, -, -, rfl⟩ | ⟨d, hd, rfl⟩
  · rwa [List.mem_singleton.mp hcv]
  · rcases List.mem_cons.mp hcv with rfl | hcv
    · decide
    · rwa [List.mem_singleton.mp hcv]

/-- Only the end of a line has a line end in it. -/
theorem not_lineEnd {k : LexClass} (hk : k ≠ .newline) {w : List Char} (h : w ∈ k.pattern) :
    InLine w := by
  cases k with
  | blank => exact not_lineEnd_of_run (by decide) (by decide) h
  | newline => exact absurd rfl hk
  | identifier => exact not_lineEnd_of_run (by decide) (by decide) h
  | keyCount =>
    obtain ⟨_, hrun, rfl⟩ := mem_mul_exactly.mp h
    exact Golden.inLine_append.mpr ⟨not_lineEnd_of_run (by decide) (by decide) hrun, by decide⟩
  | spaceCount =>
    obtain ⟨_, hrun, rfl⟩ := mem_mul_exactly.mp h
    exact Golden.inLine_append.mpr ⟨not_lineEnd_of_run (by decide) (by decide) hrun, by decide⟩
  | integer => exact not_lineEnd_of_run (by decide) (by decide) h
  | character =>
    obtain ⟨c, hc, rfl⟩ := mem_character.mp h
    simpa using ⟨rfl, hc, rfl⟩
  | string =>
    obtain ⟨body, hbody, rfl⟩ := mem_string.mp h
    have hinside := not_lineEnd_of_inside hbody
    exact Golden.inLine_cons.mpr ⟨rfl, Golden.inLine_append.mpr ⟨hinside, by decide⟩⟩
  | symbol s =>
    obtain rfl : w = s.text.toList := h
    cases s <;> decide
  | invalid => cases h

theorem not_dash_of_run {p q : Char → Bool} (hp : p '-' = false) (hq : q '-' = false)
    {w : List Char} (h : w ∈ one p * KStar.kstar (one q)) : '-' ∉ w := by
  obtain ⟨c, cs, hc, hcs, rfl⟩ := mem_run.mp h
  intro hdash
  rcases List.mem_cons.mp hdash with rfl | hdash
  · exact absurd (hc.symm.trans hp) (by decide)
  · exact absurd ((hcs _ hdash).symm.trans hq) (by decide)

theorem quote_mem_of_dash {k : LexClass} {w : List Char} (h : w ∈ k.pattern) (hdash : '-' ∈ w) :
    '\'' ∈ w ∨ '\"' ∈ w := by
  cases k with
  | blank => exact absurd hdash (not_dash_of_run (by decide) (by decide) h)
  | newline => rcases h with (rfl | rfl) | rfl <;> revert hdash <;> decide
  | identifier => exact absurd hdash (not_dash_of_run (by decide) (by decide) h)
  | keyCount =>
    obtain ⟨_, hrun, rfl⟩ := mem_mul_exactly.mp h
    have hnot := not_dash_of_run (by decide) (by decide) hrun
    simp [hnot] at hdash
  | spaceCount =>
    obtain ⟨_, hrun, rfl⟩ := mem_mul_exactly.mp h
    have hnot := not_dash_of_run (by decide) (by decide) hrun
    simp [hnot] at hdash
  | integer => exact absurd hdash (not_dash_of_run (by decide) (by decide) h)
  | character =>
    obtain ⟨c, -, rfl⟩ := mem_character.mp h
    exact .inl List.mem_cons_self
  | string =>
    obtain ⟨body, -, rfl⟩ := mem_string.mp h
    exact .inr List.mem_cons_self
  | symbol s =>
    obtain rfl : w = s.text.toList := h
    cases s <;> revert hdash <;> decide
  | invalid => cases h

end LexClass

/-! ## 2. Sources have no delimiters -/

/-- A text all of whose lexemes are valid. -/
def Text.Lexes (t : Text) : Prop :=
  ∀ l ∈ cut t, l.kind ≠ .invalid

theorem Text.Lexes.dashQuoted {t : Text} (h : t.Lexes) : ∀ l ∈ allLines t, DashQuoted l := by
  have hlexeme : ∀ l ∈ cut t, ∀ line ∈ allLines l.text, DashQuoted line := by
    intro l hl
    have hvalid := h l hl
    obtain ⟨g, rest, rfl⟩ := Token.mem_cut hl
    obtain ⟨w, hw, htext⟩ := fits_classify g rest hvalid
    dsimp only at htext ⊢
    rw [htext]
    by_cases hk : (classify g rest).1 = .newline
    · rw [hk] at hw
      have hnone : ∀ line ∈ allLines (ofChars w), dash ∉ line := by
        rcases hw with (rfl | rfl) | rfl <;> decide
      exact fun line hline hdash => absurd hdash (hnone line hline)
    · rw [Text.allLines_of_line (LexClass.not_lineEnd hk hw).oneLine.1]
      refine List.forall_mem_singleton.mpr fun hdash => ?_
      obtain ⟨c, hc, heq⟩ := List.mem_map.mp hdash
      obtain rfl := Glyph.char.inj heq
      exact (LexClass.quote_mem_of_dash hw hc).imp List.mem_map_of_mem List.mem_map_of_mem
  rw [← flatMap_text_cut t]
  generalize cut t = ls at hlexeme
  induction ls with
  | nil =>
    intro line hline hdash
    rw [List.mem_singleton.mp hline] at hdash
    cases hdash
  | cons l ls ih =>
    obtain ⟨hl, hls⟩ := List.forall_mem_cons.mp hlexeme
    rw [List.flatMap_cons]
    exact Text.forall_allLines_append (fun _ _ => DashQuoted.append) hl (ih hls)

theorem invalid_mem_mergeInvalid {ls : List Lexeme} {l : Lexeme} (hl : l ∈ ls)
    (hkind : l.kind = .invalid) : ∃ l' ∈ mergeInvalid ls, l'.kind = .invalid := by
  induction ls with
  | nil => cases hl
  | cons x ls ih =>
    rw [mergeInvalid]
    rcases List.mem_cons.mp hl with rfl | hl
    · split
      · exact ⟨l, List.mem_cons_self, hkind⟩
      · split
        · exact ⟨_, List.mem_cons_self, rfl⟩
        · exact ⟨l, List.mem_cons_self, hkind⟩
    · obtain ⟨l', hl', hkind'⟩ := ih hl
      cases hrest : mergeInvalid ls with
      | nil =>
        rw [hrest] at hl'
        cases hl'
      | cons m ms =>
        rw [hrest] at hl'
        dsimp only
        split
        · exact ⟨_, List.mem_cons_self, rfl⟩
        · exact ⟨l', List.mem_cons_of_mem x hl', hkind'⟩

/-- A source that is read has no invalid lexeme. -/
theorem lexes_of_parse {source : Text} {d : Description}
    (h : Description.parse source = .ok d) : source.Lexes := by
  obtain ⟨f, rows, hkinds, -, -⟩ := Parser.description_sound h
  have hvalid : ∀ t ∈ (TokenStream.ofText source).tokens, t.kind ≠ .invalid := by
    intro t ht
    have hmem := List.mem_map_of_mem (f := (·.kind)) ht
    exact (Parser.file_readable f t.kind (hkinds ▸ hmem)).1
  intro l hl hinvalid
  obtain ⟨l', hl', hinvalid'⟩ := invalid_mem_mergeInvalid hl hinvalid
  exact TokenStream.valid_of_mem_scan hvalid hl' hinvalid'

/-! ## 3. Carriage returns -/

namespace Text

/-- A text without the carriage return before each of its line feeds and at its end. -/
def withoutReturns (t : Text) : Text :=
  join [lineFeed] ((allLines t).map dropReturn)

theorem withoutReturns_nil : withoutReturns [] = [] := rfl

theorem join_cons {l : Text} {ls : List Text} (h : ls ≠ []) :
    join [lineFeed] (l :: ls) = l ++ lineFeed :: join [lineFeed] ls := by
  cases ls with
  | nil => exact absurd rfl h
  | cons l' ls =>
    rw [join, List.intercalate_cons_cons]
    simp [join]

theorem withoutReturns_lineFeed (t : Text) :
    withoutReturns (lineFeed :: t) = lineFeed :: withoutReturns t := by
  have hne : (allLines t).map dropReturn ≠ [] := by simpa using allLines_ne_nil t
  unfold withoutReturns
  rw [allLines, if_pos rfl, List.map_cons, join_cons hne]
  rfl

theorem dropReturn_cons {g : Glyph} {l : Text} (h : g ≠ carriageReturn ∨ l ≠ []) :
    dropReturn (g :: l) = g :: dropReturn l := by
  cases l with
  | nil =>
    have hg : g ≠ carriageReturn := h.resolve_right fun hne => hne rfl
    simp [dropReturn, hg]
  | cons g' l =>
    unfold dropReturn
    rw [List.getLast?_cons_cons]
    split <;> rfl

theorem join_head (g : Glyph) (l : Text) (ls : List Text) :
    join [lineFeed] ((g :: l) :: ls) = g :: join [lineFeed] (l :: ls) := by
  cases ls with
  | nil => simp [join]
  | cons l' ls =>
    rw [join_cons (List.cons_ne_nil l' ls), join_cons (List.cons_ne_nil l' ls), List.cons_append]

theorem withoutReturns_cons {g : Glyph} {t : Text} (hg : g ≠ lineFeed)
    (h : g ≠ carriageReturn ∨ t.firstLine ≠ []) :
    withoutReturns (g :: t) = g :: withoutReturns t := by
  unfold withoutReturns
  rw [allLines, if_neg hg, allLines_eq_cons t]
  dsimp only
  rw [List.map_cons, dropReturn_cons h, join_head, List.map_cons]

theorem withoutReturns_return {t : Text} (h : t.firstLine = []) :
    withoutReturns (carriageReturn :: t) = withoutReturns t := by
  unfold withoutReturns
  rw [allLines, if_neg (by decide), allLines_eq_cons t, h]
  rfl

theorem eq_of_firstLine_eq_nil {t : Text} (h : t.firstLine = []) :
    t = [] ∨ ∃ rest, t = lineFeed :: rest := by
  cases t with
  | nil => exact .inl rfl
  | cons g rest =>
    by_cases hg : g = lineFeed
    · exact .inr ⟨rest, by rw [hg]⟩
    · simp [firstLine, hg] at h

theorem withoutReturns_append {w : Text} (h : OneLine w) (t : Text) :
    withoutReturns (w ++ t) = w ++ withoutReturns t := by
  induction w with
  | nil => rfl
  | cons g w ih =>
    obtain ⟨hfeed, hreturn⟩ := h
    simp only [List.mem_cons, not_or] at hfeed hreturn
    rw [List.cons_append, withoutReturns_cons (Ne.symm hfeed.1) (.inl (Ne.symm hreturn.1)),
      ih ⟨hfeed.2, hreturn.2⟩, List.cons_append]

theorem isPrefix_of_withoutReturns {w : Text} (h : OneLine w) {t : Text}
    (hw : w <+: withoutReturns t) : w <+: t := by
  induction w generalizing t with
  | nil => exact List.nil_prefix
  | cons g w ih =>
    obtain ⟨hfeed, hreturn⟩ := h
    simp only [List.mem_cons, not_or] at hfeed hreturn
    cases t with
    | nil => simp [withoutReturns_nil] at hw
    | cons g' t =>
      by_cases hg' : g' = lineFeed
      · rw [hg', withoutReturns_lineFeed, List.cons_prefix_cons] at hw
        exact absurd hw.1.symm hfeed.1
      by_cases hcons : g' ≠ carriageReturn ∨ Text.firstLine t ≠ []
      · rw [withoutReturns_cons hg' hcons, List.cons_prefix_cons] at hw
        obtain ⟨rfl, hw⟩ := hw
        exact List.cons_prefix_cons.mpr ⟨rfl, ih ⟨hfeed.2, hreturn.2⟩ hw⟩
      · obtain ⟨rfl, hfirst⟩ : g' = carriageReturn ∧ Text.firstLine t = [] := by
          simpa using hcons
        -- The line is empty but for its carriage return, so it does not start with `g`.
        rw [withoutReturns_return hfirst] at hw
        rcases eq_of_firstLine_eq_nil hfirst with rfl | ⟨rest, rfl⟩
        · simp [withoutReturns_nil] at hw
        · rw [withoutReturns_lineFeed, List.cons_prefix_cons] at hw
          exact absurd hw.1.symm hfeed.1

end Text

/-! ## 4. Lexemes without carriage returns -/

namespace Lexeme

/-- A lexeme is found again in front of another text, when that one does not offer more to read
before its first line end. -/
theorem classify_of_line {g : Glyph} {rest rest' : Text} {k : LexClass} {n : Nat}
    (h : classify g rest = (k, n)) (hvalid : k ≠ .invalid) (hline : k ≠ .newline)
    (hrest : ∀ w, OneLine w → w <+: rest' → w <+: rest.drop n) :
    classify g (rest.take n ++ rest') = (k, n) := by
  have hfits := fits_classify g rest
  have hle := classify_le g rest
  rw [h] at hfits hle
  obtain ⟨w, hw, htext⟩ := hfits hvalid
  obtain ⟨c, ds, rfl, hout⟩ := outdoes_match hw rest'
  obtain ⟨rfl, htake⟩ : g = .char c ∧ rest.take n = ofChars ds := List.cons.inj htext
  have hn : ds.length = n := by
    have hlength := congrArg List.length htake
    rw [List.length_take_of_le hle, ofChars, List.length_map] at hlength
    exact hlength.symm
  rw [htake]
  rcases hout with hfound | ⟨hlt, hvalid'⟩
  · rw [hfound, hn]
  -- A longer lexeme has no line end either, so it would have been found in front of `rest`.
  exfalso
  have hfits' := fits_classify (.char c) (ofChars ds ++ rest')
  have hle' := classify_le (.char c) (ofChars ds ++ rest')
  generalize classify (.char c) (ofChars ds ++ rest') = found at hlt hvalid' hfits' hle'
  obtain ⟨k', n'⟩ := found
  obtain ⟨w', hw', htext'⟩ := hfits' hvalid'
  dsimp only at hlt hvalid' hle' htext' hw'
  cases w' with
  | nil => cases htext'
  | cons c' ds' =>
    obtain ⟨heq, htake'⟩ : Glyph.char c = .char c' ∧ (ofChars ds ++ rest').take n' = ofChars ds' :=
      List.cons.inj htext'
    obtain rfl := Glyph.char.inj heq
    have hk' : k' ≠ .newline := by
      rintro rfl
      have hc := LexClass.not_lineEnd hline hw c List.mem_cons_self
      rcases hw' with (hw' | hw') | hw' <;> cases hw' <;> cases hc
    have hn' : ds'.length = n' := by
      have hlength := congrArg List.length htake'
      rw [List.length_take_of_le hle', ofChars, List.length_map] at hlength
      exact hlength.symm
    have hchars : ofChars ds ++ rest'.take (n' - ds.length) = ofChars ds' := by
      have hds : (ofChars ds).length = ds.length := List.length_map _
      have hall : (ofChars ds).take n' = ofChars ds := List.take_of_length_le (by omega)
      rw [← htake', List.take_append, hds, hall]
    have hone : OneLine (ofChars ds ++ rest'.take (n' - ds.length)) := by
      have hline : InLine ds' := fun d hd =>
        LexClass.not_lineEnd hk' hw' d (List.mem_cons_of_mem c hd)
      rw [hchars]
      exact hline.oneLine
    obtain ⟨back, hback⟩ := hrest (rest'.take (n' - ds.length))
      ⟨fun hmem => hone.1 (List.mem_append_right _ hmem),
        fun hmem => hone.2 (List.mem_append_right _ hmem)⟩ (List.take_prefix _ _)
    have hsplit : rest = ofChars ds' ++ back := by
      rw [← hchars, List.append_assoc, hback, ← htake, List.take_append_drop]
    obtain ⟨c₁, ds₁, heq₁, hout'⟩ := outdoes_match hw' back
    obtain ⟨rfl, rfl⟩ := List.cons.inj heq₁
    rw [← hsplit, h] at hout'
    rcases hout' with heq | ⟨hlt', -⟩
    · have hsame : n = ds'.length := congrArg Prod.snd heq
      omega
    · dsimp only at hlt'
      omega

/-- What the lexemes of a text mean, invalid ones not joined. -/
def meanings (t : Text) : List Kind :=
  (cut t).filterMap Kind.ofLexeme?

theorem meanings_cons {g : Glyph} {rest : Text} {k : LexClass} {n : Nat}
    (h : classify g rest = (k, n)) : meanings (g :: rest) =
      (Kind.ofLexeme? ⟨k, g :: rest.take n⟩).toList ++ meanings (rest.drop n) := by
  unfold meanings
  rw [cut, h, List.filterMap_cons]
  cases Kind.ofLexeme? ⟨k, g :: rest.take n⟩ <;> rfl

theorem meanings_lineFeed (t : Text) : meanings (lineFeed :: t) = meanings t :=
  meanings_cons rfl

theorem meanings_return (t : Text) : meanings (carriageReturn :: t) = meanings t := by
  have hclass := classify_carriageReturn t
  by_cases hhead : t.head? = some (.char '\n')
  · obtain ⟨t', rfl⟩ : ∃ t', t = lineFeed :: t' := ⟨t.tail, List.eq_cons_of_mem_head? hhead⟩
    rw [meanings_lineFeed]
    exact meanings_cons hclass
  · rw [if_neg hhead] at hclass
    exact meanings_cons hclass

theorem newline_of_classify {g : Glyph} {rest : Text} (h : (classify g rest).1 = .newline) :
    g = lineFeed ∨ g = carriageReturn := by
  have hfits := fits_classify g rest
  obtain ⟨w, hw, htext⟩ := hfits (by rw [h]; decide)
  rw [h] at hw
  rcases hw with (rfl | rfl) | rfl
  · exact .inl (List.cons.inj htext).1
  · exact .inr (List.cons.inj htext).1
  · exact .inr (List.cons.inj htext).1

theorem meanings_withoutReturns {t : Text} (h : t.Lexes) :
    meanings t.withoutReturns = meanings t := by
  unfold Text.Lexes at h
  fun_induction cut t with
  | case1 => rfl
  | case2 g rest kind n hclass ih =>
    obtain ⟨hvalid, hrest⟩ := List.forall_mem_cons.mp h
    specialize ih hrest
    rw [meanings_cons hclass, ← ih]
    by_cases hk : kind = .newline
    · subst hk
      show meanings (Text.withoutReturns (g :: rest)) = meanings (Text.withoutReturns (rest.drop n))
      rcases newline_of_classify (congrArg Prod.fst hclass) with rfl | rfl
      · obtain rfl : 0 = n := congrArg Prod.snd hclass
        rw [Text.withoutReturns_lineFeed, meanings_lineFeed, List.drop_zero]
      · have hn : n = if rest.head? = some (.char '\n') then 1 else 0 :=
          (congrArg Prod.snd ((classify_carriageReturn rest).symm.trans hclass)).symm
        -- The carriage return is one lexeme with the line feed behind it, or it stands alone.
        by_cases hfirst : Text.firstLine rest = []
        · rw [Text.withoutReturns_return hfirst]
          rcases Text.eq_of_firstLine_eq_nil hfirst with rfl | ⟨t, rfl⟩
          · rw [List.drop_nil]
          · rw [hn, Text.withoutReturns_lineFeed, meanings_lineFeed]
            rfl
        · have hhead : rest.head? ≠ some (.char '\n') := by
            intro hhead
            rw [List.eq_cons_of_mem_head? hhead] at hfirst
            exact hfirst rfl
          rw [if_neg hhead] at hn
          rw [hn, Text.withoutReturns_cons (by decide) (.inr hfirst), meanings_return,
            List.drop_zero]
    · have hfits := fits_classify g rest
      have hle := classify_le g rest
      rw [hclass] at hfits hle
      obtain ⟨w, hw, htext⟩ := hfits hvalid
      have hone := (LexClass.not_lineEnd hk hw).oneLine
      rw [← htext] at hone
      have hfound := classify_of_line hclass hvalid hk fun w hw hprefix =>
        Text.isPrefix_of_withoutReturns hw hprefix
      have hlength : (rest.take n).length = n := List.length_take_of_le hle
      calc meanings (Text.withoutReturns (g :: rest))
          = meanings (Text.withoutReturns (g :: rest.take n ++ rest.drop n)) := by
            rw [List.cons_append, List.take_append_drop]
        _ = meanings (g :: (rest.take n ++ Text.withoutReturns (rest.drop n))) := by
            rw [Text.withoutReturns_append hone]
            rfl
        _ = _ := by
            rw [meanings_cons hfound, List.take_left' hlength, List.drop_left' hlength]

end Lexeme

/-! ## 5. Compiling without carriage returns -/

theorem Text.Lexes.kinds_eq {t : Text} (h : t.Lexes) :
    Parser.kinds (TokenStream.ofText t).tokens = Lexeme.meanings t := by
  show (TokenStream.ofText t).tokens.map (·.kind) = _
  rw [Token.kinds_ofText, scan, Token.mergeInvalid_eq_self h]
  rfl

/-- A text whose lexemes mean nothing invalid has no invalid lexeme. -/
theorem lexes_of_meanings {t : Text} (h : Kind.invalid ∉ Lexeme.meanings t) : t.Lexes := by
  intro l hl hinvalid
  exact h (List.mem_filterMap.mpr ⟨l, hl, by simp [Kind.ofLexeme?, hinvalid]⟩)

/-- A source is read as the same description without its carriage returns. -/
theorem parse_withoutReturns {source : Text} {d : Description}
    (h : Description.parse source = .ok d) :
    ∃ d', Description.parse source.withoutReturns = .ok d' ∧ d'.unlocated = d.unlocated := by
  have hlexes := lexes_of_parse h
  obtain ⟨f, rows, hkinds, hrows, htree⟩ := Parser.description_sound h
  have hreadable := Parser.file_readable f
  have hmeanings : Lexeme.meanings source.withoutReturns = f.kinds := by
    rw [meanings_withoutReturns hlexes, ← hlexes.kinds_eq, hkinds]
  have hlexes' : source.withoutReturns.Lexes := by
    apply lexes_of_meanings
    rw [hmeanings]
    exact fun hinvalid => (hreadable _ hinvalid).1 rfl
  have hkinds' : Parser.kinds (TokenStream.ofText source.withoutReturns).tokens = f.kinds :=
    hlexes'.kinds_eq.trans hmeanings
  obtain ⟨d', hd', htree'⟩ := Parser.description_complete hkinds' (hkinds' ▸ hreadable) hrows
  exact ⟨d', hd', htree'.trans htree.symm⟩

/-- Descriptions that differ in their places only are compiled to the same text. -/
theorem emit_of_unlocated {d d' : Description} (hsame : d'.unlocated = d.unlocated)
    {defaults : List DefaultOption} {t : Target} {out : String}
    (h : (Keymap.resolve d defaults >>= t.emit) = .ok out) :
    (Keymap.resolve d' defaults >>= t.emit) = .ok out := by
  have hout := (resolve_emit_tracks d defaults t).of_ok h
  rw [← hsame] at hout
  obtain ⟨out', hout', rfl⟩ := (resolve_emit_tracks d' defaults t).ok_of hout
  exact hout'

/-- The carriage returns at the line ends of a source do not change what it compiles to. -/
theorem compile_of_returns {origin : Origin} {defaults : List DefaultOption} {t : Target}
    {out : String} (h : compile origin defaults t = .ok out) (name : String) :
    compile ⟨name, origin.text.withoutReturns⟩ defaults t = .ok out := by
  rw [compile_eq_quoting, quoting_eq_ok_iff, Keymap.read, bind_assoc] at h ⊢
  obtain ⟨d, hd, h⟩ := bind_eq_ok_iff.mp h
  obtain ⟨d', hd', hsame⟩ := parse_withoutReturns hd
  exact bind_eq_ok_iff.mpr ⟨d', hd', emit_of_unlocated hsame h⟩

end Keyplan
