import Keyplan.Proofs.Outline
import Keyplan.Proofs.Token.Patterns

/-!
# Order — tokens one behind the other

Where no token is invalid, every token has something in it, and it stops no later than the next one
starts.
-/

namespace Keyplan.TokenStream

open Token (Kind Ordered)

theorem exists_lexeme {source : Text} {t : Token} (h : t ∈ (ofText source).tokens) :
    ∃ l ∈ Lexeme.scan source, Kind.ofLexeme? l = some t.kind ∧ t.lexeme = l.text := by
  obtain ⟨⟨l, p⟩, hl, ht⟩ := List.mem_filterMap.mp h
  obtain ⟨kind, hkind, rfl⟩ := Option.map_eq_some_iff.mp ht
  have hmem := List.mem_map_of_mem (f := Prod.fst) hl
  rw [Token.map_fst_locate] at hmem
  exact ⟨l, hmem, hkind, rfl⟩

variable {source : Text} (hvalid : ∀ t ∈ (ofText source).tokens, t.kind ≠ .invalid)
include hvalid

theorem valid_of_mem_scan {l : Lexeme} (h : l ∈ Lexeme.scan source) : l.kind ≠ .invalid := by
  intro hinvalid
  have hkind : Kind.ofLexeme? l = some .invalid := by simp [Kind.ofLexeme?, hinvalid]
  have hmem : Kind.invalid ∈ (ofText source).tokens.map (·.kind) := by
    rw [Token.kinds_ofText]
    exact List.mem_filterMap.mpr ⟨l, h, hkind⟩
  obtain ⟨t, ht, htkind⟩ := List.mem_map.mp hmem
  exact hvalid t ht htkind

theorem mem_cut_of_mem_scan {l : Lexeme} (h : l ∈ Lexeme.scan source) : l ∈ Lexeme.cut source :=
  (Token.mem_mergeInvalid h).resolve_right (valid_of_mem_scan hvalid h)

/-- Where no token is invalid, no byte is without a character. -/
theorem columns_eq_one : ∀ g ∈ source, g.columns = 1 := by
  intro g hg
  rw [← Lexeme.flatMap_text_scan source] at hg
  obtain ⟨l, hl, hgl⟩ := List.mem_flatMap.mp hg
  have hcut := mem_cut_of_mem_scan hvalid hl
  obtain ⟨h, rest, rfl⟩ := Token.mem_cut hcut
  obtain ⟨cs, -, htext⟩ := Lexeme.fits_classify h rest (valid_of_mem_scan hvalid hl)
  rw [htext] at hgl
  obtain ⟨c, -, rfl⟩ := List.mem_map.mp hgl
  rfl

theorem ordered_tokens : Ordered (ofText source).tokens := by
  have htext : [] ++ [] ++ (Lexeme.scan source).flatMap (·.text) = source :=
    Lexeme.flatMap_text_scan source
  obtain ⟨pieces, tail, htokens, hcovers⟩ := Token.covers_locate (columns_eq_one hvalid) _
    (fun l hl => Lexeme.clean_of_mem_scan hl) htext (by simp [Text.Skippable])
  have hpieces : (ofText source).tokens = pieces.map Token.Piece.token := htokens
  have hstands : ∀ t ∈ (ofText source).tokens, ∃ before, t.Stands source before := by
    intro t ht
    rw [hpieces] at ht
    obtain ⟨p, hp, rfl⟩ := List.mem_map.mp ht
    obtain ⟨front, back, hsplit⟩ := List.append_of_mem hp
    exact ⟨_, hcovers.stands front p back hsplit⟩
  refine ⟨?_, ?_, ?_⟩
  · intro t ht
    obtain ⟨before, hstand⟩ := hstands t ht
    obtain ⟨l, hl, -, hlexeme⟩ := exists_lexeme ht
    have hlong : 0 < t.lexeme.length := by
      rw [hlexeme, List.length_pos_iff]
      exact Lexeme.text_ne_nil_of_mem_cut source l (mem_cut_of_mem_scan hvalid hl)
    have hrow := hstand.row (hvalid t ht)
    have hcol := hstand.columns (hvalid t ht)
    rw [Span.Proper, Position.before_iff]
    omega
  · intro t ht
    obtain ⟨before, hstand⟩ := hstands t ht
    rw [hstand.start]
    simp only [Position.behind]
    omega
  · rw [hpieces, List.pairwise_map]
    exact hcovers.apart

end Keyplan.TokenStream
