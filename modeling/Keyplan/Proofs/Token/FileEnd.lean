import Keyplan.Proofs.Golden.Sources
import Keyplan.Proofs.Token.LongestMatch

/-!
# File end — where the token behind the last lexeme stands

A source that can be cut into lexemes ends where counting line feeds and characters says, with one
exception: a lone carriage return is a line end, and at the end of a file it opens a row that no
other token could stand on.
-/

namespace Keyplan

open Text (lineFeed carriageReturn ofChars)
open Lexeme (locate)

/-! ## 1. Behind the last lexeme -/

namespace Position

/-- The position behind a file: what counting gives, unless a carriage return is the last character;
then it is the start of the row after the last one. -/
def fileEnd (t : Text) : Position :=
  if t.getLast? = some carriageReturn then { row := (behind t).row + 1, col := 1 } else behind t

theorem fileEnd_eq_behind_iff (t : Text) :
    fileEnd t = behind t ↔ t.getLast? ≠ some carriageReturn := by
  unfold fileEnd
  constructor
  · intro h hlast
    rw [if_pos hlast] at h
    have hrow := congrArg Position.row h
    dsimp only at hrow
    omega
  · intro hlast
    exact if_neg hlast

end Position

namespace Lexeme

theorem getLast?_locate_concat (p : Position) (ls : List Lexeme) (l : Lexeme) :
    (locate p (ls ++ [l])).getLast? =
      some (l, (ls.flatMap (·.text)).foldl Position.after p) := by
  induction ls generalizing p with
  | nil => rfl
  | cons m ls ih =>
    have hne : locate (m.next p) (ls ++ [l]) ≠ [] := by
      intro h
      have hlast := ih (m.next p)
      rw [h] at hlast
      cases hlast
    rw [List.cons_append, locate, List.getLast?_cons, List.getLast?_eq_some_getLast hne]
    rw [List.flatMap_cons, List.foldl_append]
    have hlast := ih (m.next p)
    rw [List.getLast?_eq_some_getLast hne] at hlast
    exact hlast

/-- A lexeme that is not invalid ends a file where counting says, unless it is a lone carriage
return. -/
theorem endPosition_behind {l : Lexeme} {w : List Char} (hw : w ∈ l.kind.pattern)
    (htext : l.text = ofChars w) (hne : l.text ≠ []) (before : Text) :
    l.endPosition (.behind before) = .fileEnd (before ++ l.text) := by
  obtain ⟨kind, text⟩ := l
  dsimp only at hw htext hne ⊢
  subst htext
  have hlast : (before ++ ofChars w).getLast? = (ofChars w).getLast? := by
    rw [List.getLast?_append, List.getLast?_eq_some_getLast hne, Option.some_or]
  unfold endPosition Position.fileEnd
  rw [hlast]
  by_cases hkind : kind = .newline
  · subst hkind
    rw [if_pos rfl]
    rcases hw with (rfl | rfl) | rfl
    · rw [if_neg (by decide)]
      exact (Position.behind_append_lineFeed before).symm
    · have hreturn : lineFeed ∉ ofChars ['\r'] := by decide
      have hrow : (Position.behind (before ++ ofChars ['\r'])).row =
          (Position.behind before).row := by
        rw [Position.behind_append hreturn]
      rw [if_pos (by decide), hrow]
    · rw [if_neg (by decide)]
      have hsplit : before ++ ofChars ['\r', '\n'] = before ++ [carriageReturn] ++ [lineFeed] := by
        simp [ofChars, carriageReturn, lineFeed]
      rw [hsplit, Position.behind_append_lineFeed, Position.behind_append (by decide)]
  · obtain ⟨hfeed, hreturn⟩ := (LexClass.not_lineEnd hkind hw).oneLine
    rw [if_neg hkind, if_neg fun h => hreturn (List.mem_of_getLast? h),
      Position.behind_append hfeed]
    rfl

end Lexeme

/-! ## 2. The last token -/

theorem Token.Kind.ofLexeme?_ne_endOfFile (l : Lexeme) : ofLexeme? l ≠ some .endOfFile := by
  have hnumber : ∀ {make : Nat → Token.Kind} (digits : List Char), (∀ n, make n ≠ .endOfFile) →
      numberKind make digits ≠ .endOfFile := by
    intro make digits hmake
    unfold numberKind
    dsimp only
    split
    · exact hmake _
    · simp
  unfold ofLexeme?
  cases l.kind <;> simp [hnumber]

namespace TokenStream

theorem stop_of_getLast? {source : Text} {l : Lexeme} {p : Position}
    (h : (locate (.behind []) (Lexeme.scan source)).getLast? = some (l, p)) :
    (ofText source).stop = l.endPosition p := by
  have hlast : (locate { row := 1, col := 1 } (Lexeme.scan source)).getLast? = some (l, p) := h
  simp only [ofText, hlast]

theorem stop_ofText {source : Text} (hvalid : ∀ t ∈ (ofText source).tokens, t.kind ≠ .invalid) :
    (ofText source).stop = .fileEnd source := by
  have htext := Lexeme.flatMap_text_scan source
  rcases List.eq_nil_or_concat (Lexeme.scan source) with hscan | ⟨front, l, hscan⟩
  · rw [hscan, List.flatMap_nil] at htext
    rw [ofText, hscan, ← htext]
    rfl
  · rw [List.concat_eq_append] at hscan
    have hl : l ∈ Lexeme.scan source := by simp [hscan]
    have hkind := valid_of_mem_scan hvalid hl
    obtain ⟨g, rest, hcut⟩ := Token.mem_cut (mem_cut_of_mem_scan hvalid hl)
    obtain ⟨w, hw, hchars⟩ := Lexeme.fits_classify g rest (by rw [hcut] at hkind; exact hkind)
    rw [hscan, List.flatMap_append, List.flatMap_singleton] at htext
    have hcolumns : ∀ g ∈ front.flatMap (·.text), g.columns = 1 := by
      intro g hg
      apply columns_eq_one hvalid
      rw [← htext]
      exact List.mem_append_left _ hg
    have hbehind := Position.foldl_after_behind (front.flatMap (·.text)) [] hcolumns
    have hlast := Lexeme.getLast?_locate_concat (.behind []) front l
    rw [hbehind, List.nil_append, ← hscan] at hlast
    rw [stop_of_getLast? hlast, ← htext]
    subst hcut
    exact Lexeme.endPosition_behind hw hchars (List.cons_ne_nil _ _) _

/-- Where the tokens of a source in valid UTF-8 end: with the end of the file, an empty span one row
further than there are line feeds and one column further than there are characters behind the last
of them, exactly unless the last character is a carriage return. Then it is on a row of its own. -/
theorem readable_fileEnd (s : String) {tokens : List Token}
    (h : (ofText (Text.ofBytes s.toUTF8)).readable = (tokens, none))
    (hvalid : ∀ t ∈ tokens, t.kind ≠ .invalid) :
    (∃ words, tokens = words ++ [Token.endOfFile (.fileEnd (Text.ofString s))] ∧
      ∀ t ∈ words, t.kind ≠ .endOfFile) ∧
    (Position.fileEnd (Text.ofString s) = .behind (Text.ofString s) ↔
      (Text.ofString s).getLast? ≠ some carriageReturn) := by
  rw [Text.ofBytes_toUTF8] at h
  obtain ⟨rfl, -⟩ := readable_eq_none h
  have hwords : ∀ t ∈ (ofText (Text.ofString s)).tokens, t.kind ≠ .invalid :=
    fun t ht => hvalid t (List.mem_append_left _ ht)
  refine ⟨⟨_, by rw [stop_ofText hwords], fun t ht hend => ?_⟩, Position.fileEnd_eq_behind_iff _⟩
  obtain ⟨l, -, hkind, -⟩ := exists_lexeme ht
  exact Token.Kind.ofLexeme?_ne_endOfFile l (hend ▸ hkind)

/-- A line that ends with a carriage return and a line feed, and blanks behind it. -/
theorem readable_fileEnd_blanks : ∃ tokens,
    (ofText (Text.ofBytes "2k\r\n\t ".toUTF8)).readable = (tokens, none) ∧
      tokens.getLast? = some (Token.endOfFile ⟨2, 3⟩) := by
  have hrun : (ofText (Text.ofString "2k\r\n\t ")).readable.2 = none ∧
      ∀ t ∈ (ofText (Text.ofString "2k\r\n\t ")).readable.1, t.kind ≠ .invalid := by
    decide +kernel
  rw [← Text.ofBytes_toUTF8] at hrun
  obtain ⟨⟨words, htokens, -⟩, hend⟩ := readable_fileEnd "2k\r\n\t " (Prod.ext rfl hrun.1) hrun.2
  refine ⟨_, Prod.ext rfl hrun.1, ?_⟩
  rw [htokens, List.getLast?_concat, hend.mpr (by decide)]
  rfl

/-- A carriage return by itself takes the end of the file to a second row, though there is only
one. -/
theorem readable_fileEnd_loneReturn : ∃ tokens,
    (ofText (Text.ofBytes "2k\r".toUTF8)).readable = (tokens, none) ∧
      (∀ t ∈ tokens, t.kind ≠ .invalid) ∧
      tokens.getLast? = some (Token.endOfFile ⟨2, 1⟩) ∧
      Position.behind (Text.ofString "2k\r") = ⟨1, 4⟩ := by
  rw [Text.ofBytes_toUTF8]
  exact ⟨_, Prod.ext rfl (by decide +kernel), by decide +kernel, by decide +kernel, by decide⟩

end TokenStream

end Keyplan
