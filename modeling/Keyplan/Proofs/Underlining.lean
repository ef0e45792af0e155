import Keyplan.Proofs.Golden.RoundTrip
import Keyplan.Snippet
import Mathlib.Data.List.DropRight

/-!
# Underlining — carets stand under the token they point at

The reader counts line feeds and characters, and a snippet takes its line from a reader of lines
that drops carriage returns. Both mean the same row: no token reaches into the carriage returns at
the end of its row, so what is left of the row has the token between the same columns.
-/

namespace Keyplan

open Text (lineFeed carriageReturn allLines lines)

/-! ## 1. Rows and the lines that are read -/

namespace Text

/-- The last of all lines is missing among the lines when it is empty. -/
theorem allLines_eq_lines_or (t : Text) :
    allLines t = lines t ∨ allLines t = lines t ++ [[]] := by
  rcases List.eq_nil_or_concat t with rfl | ⟨front, g, rfl⟩
  · exact .inr rfl
  rw [List.concat_eq_append]
  by_cases hg : g = lineFeed
  · right
    rw [hg, lines_append_lineFeed, allLines_append_lineFeed]
    simp [lines, allLines]
  · left
    exact (lines_concat hg front).symm

theorem lines_getElem? {t l : Text} {i : Nat} (h : (allLines t)[i]? = some l) (hl : l ≠ []) :
    (lines t)[i]? = some l := by
  rcases allLines_eq_lines_or t with heq | heq
  · rwa [heq] at h
  · rw [heq] at h
    by_cases hi : i < (lines t).length
    · rwa [List.getElem?_append_left hi] at h
    · rw [List.getElem?_append_right (by omega)] at h
      have hmem := List.mem_of_getElem? h
      exact absurd (List.mem_singleton.mp hmem) hl

theorem lineFeed_not_mem_of_mem_allLines {t l : Text} (h : l ∈ allLines t) : lineFeed ∉ l := by
  induction t generalizing l with
  | nil =>
    rw [List.mem_singleton.mp h]
    exact List.not_mem_nil
  | cons g t ih =>
    rw [allLines] at h
    by_cases hg : g = lineFeed
    · rw [if_pos hg] at h
      rcases List.mem_cons.mp h with rfl | h
      · exact List.not_mem_nil
      · exact ih h
    · rw [if_neg hg, allLines_eq_cons t] at h
      rw [allLines_eq_cons t] at ih
      rcases List.mem_cons.mp h with rfl | h
      · simpa [Ne.symm hg] using ih List.mem_cons_self
      · exact ih (List.mem_cons_of_mem _ h)

theorem dropRightWhile_concat (p : Glyph → Bool) (t : Text) (g : Glyph) :
    dropRightWhile p (t ++ [g]) = if p g then dropRightWhile p t else t ++ [g] :=
  List.rdropWhile_concat p t g

/-- Nothing is dropped in front of a glyph that stays. -/
theorem dropRightWhile_append {p : Glyph → Bool} {g : Glyph} (hg : p g = false) (t u : Text) :
    dropRightWhile p (t ++ [g] ++ u) = t ++ [g] ++ dropRightWhile p u := by
  induction u using List.reverseRecOn with
  | nil =>
    rw [List.append_nil, dropRightWhile_concat, hg]
    exact (List.append_nil _).symm
  | append_singleton u x ih =>
    rw [← List.append_assoc, dropRightWhile_concat, dropRightWhile_concat, ih]
    by_cases hx : p x
    · rw [if_pos hx, if_pos hx]
    · rw [if_neg hx, if_neg hx, List.append_assoc]

theorem dropRightWhile_dropReturn (t : Text) :
    dropRightWhile (· == carriageReturn) (dropReturn t) =
      dropRightWhile (· == carriageReturn) t := by
  unfold dropReturn
  by_cases h : t.getLast? = some carriageReturn
  · obtain ⟨front, rfl⟩ := List.getLast?_eq_some_iff.mp h
    rw [if_pos h, List.dropLast_concat, dropRightWhile_concat, if_pos (beq_self_eq_true _)]
  · rw [if_neg h]

end Text

theorem sourceLine_succ (source : Text) (i : Nat) :
    sourceLine source (i + 1) =
      (source.readLines.lines[i]?.getD []).dropRightWhile (· == carriageReturn) := by
  have hpos : ¬ ((i : Int) + 1 ≤ 0) := by omega
  have hindex : ((i : Int) + 1 - 1).toNat = i := by omega
  rw [sourceLine, if_neg hpos, hindex]

/-- A row that is not empty is quoted without its trailing carriage returns. -/
theorem sourceLine_eq {source row : Text} (hfits : Golden.FitsLines source)
    {i : Nat} (hrow : (allLines source)[i]? = some row) (hne : row ≠ []) :
    sourceLine source (i + 1) = row.dropRightWhile (· == carriageReturn) := by
  have hread := Golden.readLines_of_fits (Golden.overlong_of_lines fun l hl =>
    hfits l (Text.mem_allLines_of_mem_lines hl))
  rw [sourceLine_succ, hread, List.getElem?_map, Text.lines_getElem? hrow hne]
  exact Text.dropRightWhile_dropReturn row

/-! ## 2. The place of a token -/

/-- Tokens are part of the source, and stand where they are found. -/
theorem TokenStream.exists_stands {s : String} {t : Token}
    (h : t ∈ (ofText (Text.ofString s)).tokens) :
    ∃ front back, front ++ t.lexeme ++ back = Text.ofString s ∧
      t.Stands (Text.ofString s) front := by
  have hcolumns : ∀ g ∈ Text.ofString s, g.columns = 1 := by
    intro g hg
    obtain ⟨c, -, rfl⟩ := List.mem_map.mp hg
    rfl
  have htext : [] ++ [] ++ (Lexeme.scan (Text.ofString s)).flatMap (·.text) = Text.ofString s :=
    Lexeme.flatMap_text_scan _
  obtain ⟨pieces, tail, htokens, hcovers⟩ := Token.covers_locate hcolumns _
    (fun l hl => Lexeme.clean_of_mem_scan hl) htext (by simp [Text.Skippable])
  have hmem : t ∈ pieces.map Token.Piece.token := htokens ▸ h
  obtain ⟨p, hp, rfl⟩ := List.mem_map.mp hmem
  obtain ⟨before, after, hsplit⟩ := List.append_of_mem hp
  refine ⟨[] ++ before.flatMap Token.Piece.text ++ p.gap, after.flatMap Token.Piece.text ++ tail,
    ?_, hcovers.stands before p after hsplit⟩
  rw [← hcovers.text, hsplit]
  simp [Token.Piece.text]

/-- A token that is not invalid has no line end in it, and is not empty. -/
theorem TokenStream.lexeme_oneLine {source : Text} {t : Token} (h : t ∈ (ofText source).tokens)
    (hvalid : t.kind ≠ .invalid) : Golden.OneLine t.lexeme ∧ t.lexeme ≠ [] := by
  obtain ⟨l, hl, hkind, htext⟩ := exists_lexeme h
  obtain ⟨-, hnewline, hinvalid⟩ := Token.Kind.ofLexeme?_eq_some hkind hvalid
  obtain ⟨g, rest, rfl⟩ := Token.mem_cut ((Token.mem_mergeInvalid hl).resolve_right hinvalid)
  obtain ⟨w, hw, hchars⟩ := Lexeme.fits_classify g rest hinvalid
  rw [htext]
  refine ⟨?_, List.cons_ne_nil _ _⟩
  dsimp only
  rw [hchars]
  exact (LexClass.not_lineEnd hnewline hw).oneLine

/-- The row of a token has the token in it: as many glyphs stand before it as its column says. -/
theorem TokenStream.exists_row {s : String} {t : Token} (h : t ∈ (ofText (Text.ofString s)).tokens)
    (hvalid : t.kind ≠ .invalid) :
    ∃ (i : Nat) (before after : Text),
      (allLines (Text.ofString s))[i]? = some (before ++ t.lexeme ++ after) ∧
      t.span = ⟨⟨i + 1, before.length + 1⟩, ⟨i + 1, before.length + 1 + t.lexeme.length⟩⟩ := by
  obtain ⟨front, back, hsource, hstands⟩ := exists_stands h
  have hline := (lexeme_oneLine h hvalid).1.1
  refine ⟨front.count lineFeed, front.lastLine, back.firstLine, ?_, ?_⟩
  · rw [← hsource, List.append_assoc, Text.allLines_count, Text.firstLine_append hline,
      List.append_assoc]
  · have hstart : t.span.start = ⟨(front.count lineFeed : Int) + 1, front.lastLine.length + 1⟩ := by
      rw [hstands.start]
      simp only [Position.behind, Position.mk.injEq]
      omega
    have hstop : t.span.stop = ⟨t.span.start.row, t.span.start.col + t.lexeme.length⟩ := by
      rw [← hstands.row hvalid, ← hstands.columns hvalid]
    rw [hstart] at hstop
    show Span.mk t.span.start t.span.stop = _
    rw [hstart, hstop]

/-! ## 3. What is underlined -/

/-- A piece that does not end with a carriage return stays where it is when those at the end of its
row are dropped. -/
theorem Text.dropReturns_append {u : Text} (hu : carriageReturn ∉ u) (hne : u ≠ [])
    (before after : Text) :
    dropRightWhile (· == carriageReturn) (before ++ u ++ after) =
      before ++ u ++ dropRightWhile (· == carriageReturn) after := by
  obtain ⟨v, g, rfl⟩ := (List.eq_nil_or_concat u).resolve_left hne
  rw [List.concat_eq_append] at hu ⊢
  have hg : (g == carriageReturn) = false := by
    rw [beq_eq_false_iff_ne]
    rintro rfl
    exact hu (List.mem_append_right v List.mem_cons_self)
  rw [← List.append_assoc]
  exact dropRightWhile_append (p := (· == carriageReturn)) hg (before ++ v) after

/-- The carets are as many as the glyphs of a piece of one row, and as many blanks stand before them
as stand before the piece. -/
theorem snippet_eq {source before u after : Text} (hfits : Golden.FitsLines source) {i : Nat}
    (hrow : (allLines source)[i]? = some (before ++ u ++ after)) (hu : carriageReturn ∉ u)
    (hne : u ≠ []) :
    snippet source ⟨⟨i + 1, before.length + 1⟩, ⟨i + 1, before.length + 1 + u.length⟩⟩ =
      List.replicate 4 (.char ' ') ++ (before ++ u ++ after).dropRightWhile (· == carriageReturn) ++
        lineFeed :: (List.replicate (4 + before.length) (.char ' ') ++
          List.replicate u.length (.char '^')) := by
  have hpos : 0 < u.length := List.length_pos_iff.mpr hne
  have hline : sourceLine source (i + 1) =
      (before ++ u ++ after).dropRightWhile (· == carriageReturn) :=
    sourceLine_eq hfits hrow (by simp [hne])
  have hshown : (before ++ u ++ after).dropRightWhile (· == carriageReturn) ≠ [] := by
    rw [Text.dropReturns_append hu hne]
    simp [hne]
  have hcolumn : Snippet.caretColumn
      ⟨⟨i + 1, before.length + 1⟩, ⟨i + 1, before.length + 1 + u.length⟩⟩ = before.length + 1 := by
    unfold Snippet.caretColumn
    dsimp only
    omega
  have hcount : ∀ line, Snippet.caretCount line
      ⟨⟨i + 1, before.length + 1⟩, ⟨i + 1, before.length + 1 + u.length⟩⟩ = u.length := by
    intro line
    unfold Snippet.caretCount
    dsimp only
    rw [hcolumn, if_pos (by omega)]
    omega
  have hmargin : Snippet.margin = List.replicate 4 (Glyph.char ' ') := by decide
  unfold snippet
  dsimp only
  rw [hline, hcolumn, hcount, if_neg (by simpa using hshown), hmargin, Nat.add_sub_cancel,
    List.replicate_add]
  simp only [List.append_assoc, List.cons_append, List.nil_append]

/-- In a source that is valid UTF-8 and has no line of 64 KiB or more, take a token that is not
invalid. Its snippet has two lines. The first is four blanks and the row that the token starts on,
without trailing carriage returns. The second is blanks and carets, and what stands above the carets
is the token. -/
theorem snippet_underlines {s : String} (hfits : Golden.FitsLines (Text.ofBytes s.toUTF8))
    {t : Token} (ht : t ∈ (TokenStream.ofText (Text.ofBytes s.toUTF8)).tokens)
    (hvalid : t.kind ≠ .invalid) :
    ∃ (i n : Nat) (row first : Text),
      t.span.start.row = i + 1 ∧ (allLines (Text.ofBytes s.toUTF8))[i]? = some row ∧
      first = List.replicate 4 (.char ' ') ++ row.dropRightWhile (· == carriageReturn) ∧
      allLines (snippet (Text.ofBytes s.toUTF8) t.span) =
        [first, List.replicate n (.char ' ') ++ List.replicate t.lexeme.length (.char '^')] ∧
      (first.drop n).take t.lexeme.length = t.lexeme := by
  rw [Text.ofBytes_toUTF8] at hfits ht ⊢
  obtain ⟨⟨hfeed, hreturn⟩, hne⟩ := TokenStream.lexeme_oneLine ht hvalid
  obtain ⟨i, before, after, hrow, hspan⟩ := TokenStream.exists_row ht hvalid
  refine ⟨i, 4 + before.length, before ++ t.lexeme ++ after, _, ?_, hrow, rfl, ?_, ?_⟩
  · rw [hspan]
  · have hsource := Text.lineFeed_not_mem_of_mem_allLines (List.mem_of_getElem? hrow)
    have hfirst : lineFeed ∉ List.replicate 4 (Glyph.char ' ') ++
        (before ++ t.lexeme ++ after).dropRightWhile (· == carriageReturn) := by
      rw [List.mem_append, not_or]
      exact ⟨by decide, fun hmem => hsource ((List.rdropWhile_prefix _ _).subset hmem)⟩
    have hsecond : lineFeed ∉ List.replicate (4 + before.length) (Glyph.char ' ') ++
        List.replicate t.lexeme.length (.char '^') := by
      simp [lineFeed]
    rw [hspan, snippet_eq hfits hrow hreturn hne, Text.allLines_append_lineFeed,
      Text.allLines_of_line hfirst, Text.allLines_of_line hsecond]
    rfl
  · have hlength : (List.replicate 4 (Glyph.char ' ') ++ before).length = 4 + before.length := by
      rw [List.length_append, List.length_replicate]
    rw [Text.dropReturns_append hreturn hne, List.append_assoc before, ← List.append_assoc,
      List.drop_left' hlength, List.take_left]

/-- A row with a character of two bytes, a carriage return before a token and two behind it, and no
line feed at its end. -/
def returnedRow : String := "k\r\n\"é\"\rx\r\r"

theorem snippet_underlines_returnedRow : Golden.FitsLines (Text.ofBytes returnedRow.toUTF8) ∧
    ∃ t ∈ (TokenStream.ofText (Text.ofBytes returnedRow.toUTF8)).tokens,
      t.kind = .identifier "x" ∧ ∃ (n : Nat) (first : Text),
        allLines (snippet (Text.ofBytes returnedRow.toUTF8) t.span) =
          [first, List.replicate n (.char ' ') ++ List.replicate t.lexeme.length (.char '^')] ∧
        (first.drop n).take t.lexeme.length = t.lexeme := by
  have hfits : Golden.FitsLines (Text.ofBytes returnedRow.toUTF8) :=
    Golden.fitsLines_of_size (by decide)
  have hmem : (⟨.identifier "x", [.char 'x'], ⟨⟨2, 5⟩, ⟨2, 6⟩⟩⟩ : Token) ∈
      (TokenStream.ofText (Text.ofBytes returnedRow.toUTF8)).tokens := by
    rw [Text.ofBytes_toUTF8]
    decide +kernel
  obtain ⟨i, n, row, first, -, -, -, hlines, habove⟩ := snippet_underlines hfits hmem (by decide)
  exact ⟨hfits, _, hmem, rfl, n, first, hlines, habove⟩

end Keyplan
