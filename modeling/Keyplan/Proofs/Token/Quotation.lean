import Keyplan.Format
import Keyplan.Proofs.Token.Spelling

/-!
# Quotation — what is quoted is read back

Quoting puts a backslash before every backslash and every quote, so a literal ends at its own last
quote. Whatever follows it, it is the first token, and the backslashes are gone from its contents.
-/

namespace Keyplan

open Lexeme

/-! ## 1. Two replacements -/

namespace Token

/-- `cs` with `new` in the place of every `old`. -/
def replaced (old : Char) (new cs : List Char) : List Char :=
  cs.flatMap fun c => if c = old then new else [c]

theorem replaced_cons (old : Char) (new : List Char) (c : Char) (cs : List Char) :
    replaced old new (c :: cs) = (if c = old then new else [c]) ++ replaced old new cs :=
  List.flatMap_cons

theorem replaced_append (old : Char) (new cs ds : List Char) :
    replaced old new (cs ++ ds) = replaced old new cs ++ replaced old new ds :=
  List.flatMap_append

/-- Escaping replaces the backslashes first and the quotes behind that, so that no backslash which
is put before a quote is doubled. -/
theorem escape_eq_replaced (cs : List Char) :
    escape cs = replaced '\"' ['\\', '\"'] (replaced '\\' ['\\', '\\'] cs) := by
  induction cs with
  | nil => rfl
  | cons c cs ih =>
    rw [escape, replaced_cons, replaced_append, ← ih]
    by_cases hback : c = '\\'
    · subst hback
      rfl
    · by_cases hquote : c = '\"'
      · subst hquote
        rfl
      · have hplain : ¬ (c = '\\' ∨ c = '\"') := not_or.mpr ⟨hback, hquote⟩
        rw [if_neg hplain, if_neg hback, replaced_cons, if_neg hquote]
        rfl

end Token

/-! ## 2. The first token -/

theorem Lexeme.scan_lexeme {g : Glyph} {piece rest : Text} {kind : LexClass}
    (h : classify g (piece ++ rest) = (kind, piece.length)) (hvalid : kind ≠ .invalid) :
    scan (g :: (piece ++ rest)) = ⟨kind, g :: piece⟩ :: scan rest := by
  rw [scan, Token.cut_lexeme g piece rest kind h, Token.mergeInvalid_cons hvalid, scan]

namespace TokenStream

/-- A lexeme that means something is the first token of the text it starts. -/
theorem head?_tokens {source : Text} {l : Lexeme} {ls : List Lexeme} {kind : Token.Kind}
    (hscan : scan source = l :: ls) (hkind : Token.Kind.ofLexeme? l = some kind) :
    (ofText source).tokens.head? =
      some { kind := kind, lexeme := l.text, span := l.spanAt { row := 1, col := 1 } } := by
  have htoken : tokenOf? (l, { row := 1, col := 1 }) =
      some { kind := kind, lexeme := l.text, span := l.spanAt { row := 1, col := 1 } } := by
    rw [tokenOf?, hkind]
    rfl
  show ((locate { row := 1, col := 1 } (scan source)).filterMap tokenOf?).head? = _
  rw [hscan, locate, List.filterMap_cons_some htoken]
  rfl

/-- The first token can be read if it is no number that is too large. -/
theorem head?_readable {s : TokenStream} {t : Token} (h : s.tokens.head? = some t)
    (ht : t.kind ≠ .oversized) : s.readable.1.head? = some t := by
  obtain ⟨rest, hrest⟩ := List.head?_eq_some_iff.mp h
  have hsound : s.tokens.takeWhile (·.kind ≠ .oversized) =
      t :: rest.takeWhile (·.kind ≠ .oversized) := by
    rw [hrest, List.takeWhile_cons, if_pos (decide_eq_true ht)]
  unfold readable
  rw [hsound]
  dsimp only
  split <;> rfl

theorem scan_quote {s : String} (hline : ∀ c ∈ s.toList, isLineEnd c = false) (rest : Text) :
    scan (Text.ofChars (Format.quote s) ++ rest) =
      ⟨.string, Text.ofChars (Format.quote s)⟩ :: scan rest := by
  have hclass := Token.classify_escape hline rest
  rw [← Text.length_ofChars] at hclass
  exact Lexeme.scan_lexeme hclass (by decide)

/-- A quoted text without line ends, in front of any bytes, is read as a string token. Its lexeme is
all that was written for it, and what it stands for is the text that was quoted. -/
theorem quote_lexes {s : String} (hfeed : '\n' ∉ s.toList) (hreturn : '\r' ∉ s.toList)
    (rest : ByteArray) :
    Format.quote s = '\"' ::
        Token.replaced '\"' ['\\', '\"'] (Token.replaced '\\' ['\\', '\\'] s.toList) ++ ['\"'] ∧
      (∃ t, (ofText (Text.ofBytes ((String.ofList (Format.quote s)).toUTF8 ++ rest))).readable.1.head?
          = some t ∧
        t.kind = .string s ∧ t.lexeme = Text.ofChars (Format.quote s) ∧
        t.text = Text.ofString s ∧ t.span = ⟨⟨1, 1⟩, ⟨1, 1 + (Format.quote s).length⟩⟩) ∧
      Token.unescape (Format.quote s).tail.dropLast = s.toList := by
  have hline : ∀ c ∈ s.toList, isLineEnd c = false := by
    intro c hc
    simp only [isLineEnd, Bool.or_eq_false_iff, beq_eq_false_iff_ne]
    exact ⟨fun e => hfeed (e ▸ hc), fun e => hreturn (e ▸ hc)⟩
  have hsource : Text.ofBytes ((String.ofList (Format.quote s)).toUTF8 ++ rest) =
      Text.ofChars (Format.quote s) ++ Text.ofBytes rest := by
    rw [Text.ofBytes_toUTF8_append, Text.ofString, String.toList_ofList]
  have hfirst := head?_tokens (scan_quote hline (Text.ofBytes rest)) (Token.ofLexeme?_escape s)
  refine ⟨?_, ?_, ?_⟩
  · rw [← Token.escape_eq_replaced]
    rfl
  · rw [hsource]
    refine ⟨_, head?_readable hfirst nofun, rfl, rfl, rfl, ?_⟩
    simp only [spanAt, Text.length_ofChars]
  · show Token.unescape (Token.escape s.toList ++ ['\"']).dropLast = s.toList
    rw [List.dropLast_concat, Token.unescape_escape]

/-- A text that ends with a quote and two backslashes, in front of a byte that belongs to no
character and one more quote. -/
theorem quote_lexes_trailingBackslashes :
    '\n' ∉ "é\"\\\\".toList ∧ '\r' ∉ "é\"\\\\".toList ∧ ∃ t,
      (ofText (Text.ofBytes ((String.ofList (Format.quote "é\"\\\\")).toUTF8 ++
        ⟨#[0x80, 0x22]⟩))).readable.1.head? = some t ∧
      t.kind = .string "é\"\\\\" ∧ t.lexeme = Text.ofString "\"é\\\"\\\\\\\\\"" := by
  obtain ⟨-, ⟨t, ht, hkind, hlexeme, -⟩, -⟩ :=
    quote_lexes (s := "é\"\\\\") (by decide) (by decide) ⟨#[0x80, 0x22]⟩
  exact ⟨by decide, by decide, t, ht, hkind, hlexeme⟩

end TokenStream

end Keyplan
