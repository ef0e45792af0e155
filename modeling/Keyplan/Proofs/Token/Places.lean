import Keyplan.Proofs.Text
import Keyplan.Proofs.Token.Spelling

/-!
# Places — tokens cover a source, and their spans say where

A source is its tokens with blanks and line ends between them. A token starts at the position that
counting line feeds and characters gives, it stops before the next one starts, and a token that is
not invalid is what its row has between its columns.
-/

namespace Keyplan

open Text (lineFeed)
open Lexeme (locate)

/-! ## 1. Counting -/

namespace Position

/-- The position behind a text at the start of a file: one row more than there are line feeds, and
one column more than there are characters behind the last of them. -/
def behind (t : Text) : Position where
  row := (1 + t.count lineFeed : Nat)
  col := (1 + t.lastLine.length : Nat)

theorem before_iff {p q : Position} :
    p.before q ↔ p.row < q.row ∨ p.row = q.row ∧ p.col < q.col := by
  unfold before
  by_cases h : p.row = q.row
  · rw [if_pos h, decide_eq_true_eq]
    omega
  · rw [if_neg h, decide_eq_true_eq]
    omega

theorem row_behind_append (t u : Text) :
    (behind (t ++ u)).row = (behind t).row + u.count lineFeed := by
  simp only [behind, List.count_append]
  omega

/-- On one row, columns are counted on. -/
theorem behind_append {u : Text} (hu : lineFeed ∉ u) (t : Text) :
    behind (t ++ u) = { behind t with col := (behind t).col + u.length } := by
  have hrow : u.count lineFeed = 0 := List.count_eq_zero.mpr hu
  simp only [behind, List.count_append, hrow, Text.lastLine_append hu, List.length_append, mk.injEq]
  omega

theorem behind_append_lineFeed (t : Text) :
    behind (t ++ [lineFeed]) = { row := (behind t).row + 1, col := 1 } := by
  have hrow : [lineFeed].count lineFeed = 1 := rfl
  simp only [behind, List.count_append, hrow, Text.lastLine_append_lineFeed, List.length_nil,
    mk.injEq]
  omega

/-- Going over the glyphs of a text counts them. -/
theorem foldl_after_behind (u t : Text) (hu : ∀ g ∈ u, g.columns = 1) :
    u.foldl Position.after (behind t) = behind (t ++ u) := by
  induction u generalizing t with
  | nil => rw [List.append_nil, List.foldl_nil]
  | cons g u ih =>
    have hstep : (behind t).after g = behind (t ++ [g]) := by
      by_cases hg : g = lineFeed
      · rw [hg, behind_append_lineFeed]
        rfl
      · have hcol := hu g List.mem_cons_self
        rw [behind_append (by simpa using Ne.symm hg)]
        unfold Position.after
        split
        · exact absurd rfl hg
        · rw [hcol]
          rfl
    rw [List.foldl_cons, hstep, ih _ fun g' hg' => hu g' (List.mem_cons_of_mem _ hg'),
      List.append_assoc, List.singleton_append]

end Position

namespace Span

/-- The span of `u` behind `t`, with all of `u` on the row that it starts on. -/
def behind (t u : Text) : Span where
  start := .behind t
  stop := { Position.behind t with col := (Position.behind t).col + u.length }

@[simp] theorem start_behind (t u : Text) : (behind t u).start = Position.behind t := rfl

@[simp] theorem stop_row_behind (t u : Text) :
    (behind t u).stop.row = (Position.behind t).row := rfl

@[simp] theorem stop_col_behind (t u : Text) :
    (behind t u).stop.col = (Position.behind t).col + u.length := rfl

theorem behind_ordered (t u : Text) : ¬ (behind t u).stop.before (behind t u).start := by
  rw [start_behind, Position.before_iff, stop_row_behind, stop_col_behind]
  omega

/-- What follows `u` starts no earlier than the span of `u` stops: it is on the same row and behind
`u`, or on a later row. -/
theorem behind_apart (t u v : Text) :
    ¬ (Position.behind (t ++ u ++ v)).before (behind t u).stop := by
  rw [List.append_assoc, Position.before_iff, stop_row_behind, stop_col_behind]
  have hrow := Position.row_behind_append t (u ++ v)
  by_cases hfeed : lineFeed ∈ u ++ v
  · have hcount : 0 < (u ++ v).count lineFeed := List.count_pos_iff.mpr hfeed
    omega
  · have hcol : (Position.behind (t ++ (u ++ v))).col = (Position.behind t).col + (u ++ v).length :=
      congrArg Position.col (Position.behind_append hfeed t)
    rw [List.length_append] at hcol
    omega

end Span

/-- The glyphs between the columns of a span, on the row that the span starts on. -/
def Text.glyphsAt? (t : Text) (s : Span) : Option Text :=
  t.allLines[(s.start.row - 1).toNat]?.map fun row =>
    (row.drop (s.start.col - 1).toNat).take (s.stop.col - s.start.col).toNat

/-- A piece without a line feed stands on its row, between its columns. -/
theorem Text.glyphsAt?_behind {u : Text} (hu : lineFeed ∉ u) (t v : Text) :
    (t ++ u ++ v).glyphsAt? (.behind t u) = some u := by
  have hrow := allLines_count t (u ++ v)
  have hindex : ((Position.behind t).row - 1).toNat = t.count lineFeed := by
    simp only [Position.behind]
    omega
  have hdrop : ((Position.behind t).col - 1).toNat = t.lastLine.length := by
    simp only [Position.behind]
    omega
  have htake : ((Position.behind t).col + u.length - (Position.behind t).col).toNat = u.length := by
    omega
  rw [glyphsAt?, Span.start_behind, Span.stop_col_behind, hindex, hdrop, htake, List.append_assoc,
    hrow, Option.map_some, firstLine_append hu, List.drop_left, List.take_left]

/-! ## 2. What lexemes are made of -/

/-- Blanks and line ends only. -/
def Text.Skippable (t : Text) : Prop :=
  ∀ g ∈ t, g ∈ [Glyph.char ' ', .char '\t', .char '\r', .char '\n']

namespace Lexeme

theorem lineFeed_not_mem_run {p : Char → Bool} (hp : p '\n' = false) (t : Text) :
    lineFeed ∉ t.take (runLength p t) := by
  intro hmem
  obtain ⟨c, hc, hpc⟩ := Token.mem_take_runLength hmem
  rw [← Glyph.char.inj hc, hp] at hpc
  cases hpc

theorem lineFeed_not_mem_take_add_one {t : Text} {n : Nat} {c : Char} (h : lineFeed ∉ t.take n)
    (hnext : t[n]? = some (.char c)) (hc : c ≠ '\n') : lineFeed ∉ t.take (n + 1) := by
  rw [List.take_add_one, hnext, List.mem_append, not_or]
  refine ⟨h, fun hmem => hc ?_⟩
  exact (Glyph.char.inj (List.mem_singleton.mp hmem)).symm

/-- A lexeme that means nothing can be skipped, and only an invalid one may have a line feed. -/
structure Clean (l : Lexeme) : Prop where
  skippable : l.kind = .blank ∨ l.kind = .newline → l.text.Skippable
  oneRow : l.kind ≠ .blank → l.kind ≠ .newline → l.kind ≠ .invalid → lineFeed ∉ l.text

theorem clean_of_skippable {kind : LexClass} {t : Text} (hkind : kind = .blank ∨ kind = .newline)
    (ht : t.Skippable) : Clean ⟨kind, t⟩ := by
  refine ⟨fun _ => ht, fun hblank hnewline _ => ?_⟩
  rcases hkind with h | h
  · exact absurd h hblank
  · exact absurd h hnewline

theorem clean_of_invalid (t : Text) : Clean ⟨.invalid, t⟩ :=
  ⟨fun h => by simp at h, fun _ _ h => absurd rfl h⟩

theorem clean_of_oneRow {kind : LexClass} {c : Char} {t : Text} (hc : c ≠ '\n')
    (hblank : kind ≠ .blank) (hnewline : kind ≠ .newline) (ht : lineFeed ∉ t) :
    Clean ⟨kind, .char c :: t⟩ := by
  constructor
  · intro hkind
    rcases hkind with h | h
    · exact absurd h hblank
    · exact absurd h hnewline
  · intro _ _ _ hmem
    rcases List.mem_cons.mp hmem with e | hmem
    · exact hc (Glyph.char.inj e).symm
    · exact ht hmem

theorem clean_characterTail (rest : Text) :
    Clean ⟨(characterTail rest).1, .char '\'' :: rest.take (characterTail rest).2⟩ := by
  rcases Token.characterTail_class rest with h | h
  · obtain ⟨c, rest', rfl, hc, htwo⟩ := Token.characterTail_eq_character h
    rw [h, htwo]
    apply clean_of_oneRow (by decide) (by simp) (by simp)
    have hc' : c ≠ '\n' := by
      rintro rfl
      cases hc
    apply lineFeed_not_mem_take_add_one (c := '\'') ?_ rfl (by decide)
    exact lineFeed_not_mem_take_add_one (List.not_mem_nil) rfl hc'
  · rw [h]
    exact clean_of_invalid _

theorem clean_stringTail (rest : Text) :
    Clean ⟨(stringTail false rest).1, .char '\"' :: rest.take (stringTail false rest).2⟩ := by
  rcases Token.stringTail_class false rest with h | h
  · have hend := Token.stringTail_eq_string h
    rw [h]
    apply clean_of_oneRow (by decide) (by simp) (by simp)
    intro hmem
    cases hend _ hmem
  · rw [h]
    exact clean_of_invalid _

theorem clean_blank {c : Char} (hc : isBlank c) (rest : Text) :
    Clean ⟨.blank, .char c :: rest.take (runLength isBlank rest)⟩ := by
  apply clean_of_skippable (.inl rfl)
  intro g hg
  have hblank : ∃ d, g = .char d ∧ isBlank d := by
    rcases List.mem_cons.mp hg with rfl | hg
    · exact ⟨c, rfl, hc⟩
    · exact Token.mem_take_runLength hg
  obtain ⟨d, rfl, hd⟩ := hblank
  simp only [isBlank, Bool.or_eq_true, beq_iff_eq] at hd
  rcases hd with rfl | rfl <;> simp

theorem clean_carriageReturn (rest : Text) :
    Clean ⟨.newline, .char '\r' :: rest.take (if rest.head? = some lineFeed then 1 else 0)⟩ := by
  apply clean_of_skippable (.inr rfl)
  by_cases hhead : rest.head? = some lineFeed
  · rw [if_pos hhead, List.take_one, hhead]
    simp [Text.Skippable, lineFeed]
  · rw [if_neg hhead]
    simp [Text.Skippable]

theorem clean_digits {c : Char} (hc : c ≠ '\n') (rest : Text) {kind : LexClass} {n : Nat}
    (h : (match rest[runLength isDigit rest]? with
      | some (.char 'k') => (LexClass.keyCount, runLength isDigit rest + 1)
      | some (.char 's') => (.spaceCount, runLength isDigit rest + 1)
      | _ => (.integer, runLength isDigit rest)) = (kind, n)) :
    Clean ⟨kind, .char c :: rest.take n⟩ := by
  have hdigits := lineFeed_not_mem_run (p := isDigit) rfl rest
  split at h <;> obtain ⟨rfl, rfl⟩ := Prod.mk.inj h <;> apply clean_of_oneRow hc (by simp) (by simp)
  · exact lineFeed_not_mem_take_add_one hdigits ‹_› (by decide)
  · exact lineFeed_not_mem_take_add_one hdigits ‹_› (by decide)
  · exact hdigits

theorem clean_classify (g : Glyph) (rest : Text) :
    Clean ⟨(classify g rest).1, g :: rest.take (classify g rest).2⟩ := by
  unfold classify
  cases g with
  | stray b => exact clean_of_invalid _
  | char c =>
    dsimp only
    -- One case for each test, in the order `classify` makes them.
    by_cases hblank : isBlank c
    · rw [if_pos hblank]
      exact clean_blank hblank rest
    rw [if_neg hblank]
    by_cases hfeed : c = '\n'
    · rw [if_pos hfeed, hfeed]
      apply clean_of_skippable (.inr rfl)
      simp [Text.Skippable]
    rw [if_neg hfeed]
    by_cases hreturn : c = '\r'
    · rw [if_pos hreturn, hreturn]
      exact clean_carriageReturn rest
    rw [if_neg hreturn]
    by_cases hname : isNameStart c
    · rw [if_pos hname]
      exact clean_of_oneRow hfeed (by simp) (by simp) (lineFeed_not_mem_run rfl rest)
    rw [if_neg hname]
    by_cases hdigit : isDigit c
    · rw [if_pos hdigit]
      exact clean_digits hfeed rest rfl
    rw [if_neg hdigit]
    by_cases hquote : c = '\''
    · rw [if_pos hquote, hquote]
      exact clean_characterTail rest
    rw [if_neg hquote]
    by_cases hstring : c = '\"'
    · rw [if_pos hstring, hstring]
      exact clean_stringTail rest
    rw [if_neg hstring]
    by_cases htilde : c = '@' ∧ rest.head? = some (.char '~')
    · rw [if_pos htilde]
      apply clean_of_oneRow hfeed (by simp) (by simp)
      rw [List.head?_eq_getElem?] at htilde
      exact lineFeed_not_mem_take_add_one List.not_mem_nil htilde.2 (by decide)
    rw [if_neg htilde]
    cases Symbol.ofChar? c with
    | some s => exact clean_of_oneRow hfeed (by simp) (by simp) List.not_mem_nil
    | none => exact clean_of_invalid _

theorem clean_of_mem_scan {t : Text} {l : Lexeme} (h : l ∈ scan t) : l.Clean := by
  rcases Token.mem_mergeInvalid h with hcut | hinvalid
  · obtain ⟨g, rest, rfl⟩ := Token.mem_cut hcut
    exact clean_classify g rest
  · obtain ⟨kind, text⟩ := l
    obtain rfl : kind = .invalid := hinvalid
    exact clean_of_invalid text

end Lexeme

/-! ## 3. Covering -/

namespace Token

theorem Kind.ofLexeme?_eq_none {l : Lexeme} (h : Kind.ofLexeme? l = none) :
    l.kind = .blank ∨ l.kind = .newline := by
  unfold Kind.ofLexeme? at h
  cases hkind : l.kind <;> simp_all

theorem Kind.ofLexeme?_eq_some {l : Lexeme} {k : Kind} (h : Kind.ofLexeme? l = some k)
    (hk : k ≠ .invalid) : l.kind ≠ .blank ∧ l.kind ≠ .newline ∧ l.kind ≠ .invalid := by
  unfold Kind.ofLexeme? at h
  cases hkind : l.kind <;> simp_all

/-- A token that stands behind `before` in `source`. A token that is not invalid stands on one row,
and its glyphs are those of the row between its columns. -/
structure Stands (source before : Text) (t : Token) : Prop where
  start : t.span.start = .behind before
  ordered : ¬ t.span.stop.before t.span.start
  row : t.kind ≠ .invalid → t.span.stop.row = t.span.start.row
  columns : t.kind ≠ .invalid → t.span.stop.col = t.span.start.col + t.lexeme.length
  glyphs : t.kind ≠ .invalid → source.glyphsAt? t.span = some t.lexeme

/-- A token and what is skipped before it. -/
structure Piece where
  gap : Text
  token : Token

def Piece.text (p : Piece) : Text :=
  p.gap ++ p.token.lexeme

/-- The pieces of `source` behind `before`, and what is skipped behind the last of them. Every token
starts where counting says, and stops before the later ones start. -/
structure Covers (source before : Text) (pieces : List Piece) (tail : Text) : Prop where
  text : before ++ pieces.flatMap Piece.text ++ tail = source
  gaps : ∀ p ∈ pieces, p.gap.Skippable
  tail : tail.Skippable
  stands : ∀ front p back, pieces = front ++ p :: back →
    p.token.Stands source (before ++ front.flatMap Piece.text ++ p.gap)
  apart : pieces.Pairwise fun p q => ¬ q.token.span.start.before p.token.span.stop

variable {source before gap tail : Text} {t : Token} {pieces : List Piece}

theorem stands_of_span {after : Text} (hsource : before ++ t.lexeme ++ after = source)
    (hspan : t.span = .behind before t.lexeme)
    (hrow : t.kind ≠ .invalid → lineFeed ∉ t.lexeme) : t.Stands source before := by
  constructor
  · rw [hspan, Span.start_behind]
  · rw [hspan]
    exact Span.behind_ordered before t.lexeme
  · intro _
    rw [hspan, Span.stop_row_behind, Span.start_behind]
  · intro _
    rw [hspan, Span.stop_col_behind, Span.start_behind]
  · intro hvalid
    rw [hspan, ← hsource]
    exact Text.glyphsAt?_behind (hrow hvalid) before after

theorem covers_nil (hsource : before ++ tail = source) (htail : tail.Skippable) :
    Covers source before [] tail := by
  refine ⟨by simpa using hsource, by simp, htail, ?_, .nil⟩
  intro front p back h
  simp at h

theorem Covers.cons (h : Covers source (before ++ gap ++ t.lexeme) pieces tail)
    (hgap : gap.Skippable) (hspan : t.span = .behind (before ++ gap) t.lexeme)
    (hrow : t.kind ≠ .invalid → lineFeed ∉ t.lexeme) :
    Covers source before (⟨gap, t⟩ :: pieces) tail := by
  have hsource := h.text
  constructor
  · simpa [Piece.text] using hsource
  · intro p hp
    rcases List.mem_cons.mp hp with rfl | hp
    · exact hgap
    · exact h.gaps p hp
  · exact h.tail
  · intro front p back hsplit
    cases front with
    | nil =>
      obtain ⟨rfl, rfl⟩ := List.cons.inj hsplit
      rw [List.append_assoc] at hsource
      simpa using stands_of_span hsource hspan hrow
    | cons first front =>
      obtain ⟨rfl, hrest⟩ := List.cons.inj hsplit
      simpa [Piece.text] using h.stands front p back hrest
  · apply List.pairwise_cons.mpr
    refine ⟨fun q hq => ?_, h.apart⟩
    -- A later token starts behind the characters of this one.
    obtain ⟨front, back, hsplit⟩ := List.append_of_mem hq
    rw [(h.stands front q back hsplit).start, hspan, List.append_assoc]
    exact Span.behind_apart _ _ _

/-- Lexemes behind `before` and a gap. Lexemes that mean nothing make the gap longer. -/
theorem covers_locate (hcolumns : ∀ g ∈ source, g.columns = 1) (ls : List Lexeme)
    (hclean : ∀ l ∈ ls, l.Clean) {before gap : Text}
    (hsource : before ++ gap ++ ls.flatMap (·.text) = source) (hgap : gap.Skippable) :
    ∃ pieces tail,
      (locate (.behind (before ++ gap)) ls).filterMap TokenStream.tokenOf? =
          pieces.map Piece.token ∧
        Covers source before pieces tail := by
  induction ls generalizing before gap with
  | nil =>
    rw [List.flatMap_nil, List.append_nil] at hsource
    exact ⟨[], gap, rfl, covers_nil hsource hgap⟩
  | cons l ls ih =>
    have hl := hclean l List.mem_cons_self
    have hls := fun l' hl' => hclean l' (List.mem_cons_of_mem _ hl')
    rw [List.flatMap_cons, ← List.append_assoc] at hsource
    have hnext : l.next (.behind (before ++ gap)) = .behind (before ++ gap ++ l.text) := by
      apply Position.foldl_after_behind
      intro g hg
      apply hcolumns
      rw [← hsource]
      simp [hg]
    rw [locate, List.filterMap_cons, hnext]
    cases hk : Kind.ofLexeme? l with
    | none =>
      -- What means nothing makes the gap longer.
      have hmore : (gap ++ l.text).Skippable := by
        intro g hg
        rcases List.mem_append.mp hg with hg | hg
        · exact hgap g hg
        · exact hl.skippable (Kind.ofLexeme?_eq_none hk) g hg
      rw [List.append_assoc before] at hsource ⊢
      obtain ⟨pieces, tail, htokens, hcovers⟩ := ih hls hsource hmore
      refine ⟨pieces, tail, ?_, hcovers⟩
      simp only [TokenStream.tokenOf?, hk, Option.map_none]
      exact htokens
    | some k =>
      -- A token ends the gap, and behind it there is none yet.
      have hrow : k ≠ .invalid → lineFeed ∉ l.text := by
        intro hvalid
        obtain ⟨hblank, hnewline, hinvalid⟩ := Kind.ofLexeme?_eq_some hk hvalid
        exact hl.oneRow hblank hnewline hinvalid
      rw [← List.append_nil (before ++ gap ++ l.text)] at hsource ⊢
      obtain ⟨pieces, tail, htokens, hcovers⟩ := ih hls hsource (by simp [Text.Skippable])
      refine ⟨⟨gap, ⟨k, l.text, l.spanAt (.behind (before ++ gap))⟩⟩ :: pieces, tail, ?_, ?_⟩
      · simp only [TokenStream.tokenOf?, hk, Option.map_some, List.map_cons]
        exact congrArg _ htokens
      · exact hcovers.cons hgap rfl hrow

end Token

/-- The tokens of a source that is valid UTF-8 cover it. Nothing but blanks and line ends stands
before, between and behind them. -/
theorem TokenStream.ofText_covers (s : String) : ∃ pieces tail,
    (TokenStream.ofText (Text.ofBytes s.toUTF8)).tokens = pieces.map Token.Piece.token ∧
      Token.Covers (Text.ofString s) [] pieces tail := by
  rw [Text.ofBytes_toUTF8]
  have hcolumns : ∀ g ∈ Text.ofString s, g.columns = 1 := by
    intro g hg
    obtain ⟨c, -, rfl⟩ := List.mem_map.mp hg
    rfl
  have htext : [] ++ [] ++ (Lexeme.scan (Text.ofString s)).flatMap (·.text) = Text.ofString s :=
    Lexeme.flatMap_text_scan _
  exact Token.covers_locate hcolumns _ (fun l hl => Lexeme.clean_of_mem_scan hl) htext
    (by simp [Text.Skippable])

-- The literal is not closed on its row: it takes the line feed with it and joins what touches it.
example : (TokenStream.ofText (Text.ofString "a\r\n\té'x\n2k")).tokens.map (·.span) =
    [⟨⟨1, 1⟩, ⟨1, 2⟩⟩, ⟨⟨2, 2⟩, ⟨2, 6⟩⟩, ⟨⟨3, 1⟩, ⟨3, 3⟩⟩] := by
  decide +kernel

end Keyplan
