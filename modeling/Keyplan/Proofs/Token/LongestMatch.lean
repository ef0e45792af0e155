import Mathlib.Data.List.TakeWhile
import Keyplan.Proofs.Text
import Keyplan.Proofs.Token.Patterns

/-!
# Longest matches — what the lexer promises about bytes

The lexemes of a source are its bytes, cut into pieces. Each valid one is the longest front of the
bytes that are left which any pattern matches, and an invalid one starts where no pattern matches.
What a token means is written in its lexeme.
-/

namespace Keyplan

open Lexeme

/-! ## 1. Matches of bytes -/

/-- Bytes that encode a word of the pattern of a class. -/
def LexClass.Matches (k : LexClass) (bytes : List UInt8) : Prop :=
  ∃ cs ∈ k.pattern, bytes = (Text.ofChars cs).toBytes

namespace Lexeme

def bytes (l : Lexeme) : List UInt8 :=
  l.text.toBytes

/-- A lexeme in front of `input` that no other match is longer than, and no match of a class
further ahead is as long as. -/
structure IsLongestMatch (input : List UInt8) (l : Lexeme) : Prop where
  front : l.bytes <+: input
  full : l.kind.Matches l.bytes
  longest : ∀ k ∈ LexClass.all, ∀ word, word <+: input → k.Matches word →
    word.length ≤ l.bytes.length
  first : ∃ ahead behind, LexClass.all = ahead ++ l.kind :: behind ∧
    ∀ k ∈ ahead, ¬ k.Matches l.bytes

/-- Nothing in front of `input` matches. -/
def NoMatch (input : List UInt8) : Prop :=
  ∀ k ∈ LexClass.all, ∀ word, word <+: input → ¬ k.Matches word

/-- The lexeme that is found in front of a text. -/
def found (g : Glyph) (rest : Text) : Lexeme where
  kind := (classify g rest).1
  text := g :: rest.take (classify g rest).2

section Reading

variable {b : ByteArray} {i : Nat} {g : Glyph} {rest : Text}

/-- A match in front of the bytes that are left is what `classify` finds there, or is shorter. -/
theorem outdoes_of_matches (hread : Text.ofBytesFrom b i = g :: rest) {k : LexClass}
    {word : List UInt8} (hfront : word <+: b.data.toList.drop i) (h : k.Matches word) :
    ∃ n ≤ rest.length, word = Text.toBytes (g :: rest.take n) ∧ Outdoes (classify g rest) k n := by
  obtain ⟨cs, hcs, rfl⟩ := h
  obtain ⟨t, ht⟩ := Text.ofBytesFrom_of_prefix hfront
  obtain ⟨c, ds, rfl, hout⟩ := outdoes_match hcs t
  obtain ⟨rfl, rfl⟩ := List.cons.inj (hread.symm.trans ht)
  refine ⟨ds.length, by simp, ?_, hout⟩
  simp [Text.ofChars]

theorem noMatch_of_invalid (hread : Text.ofBytesFrom b i = g :: rest)
    (hinvalid : (found g rest).kind = .invalid) : NoMatch (b.data.toList.drop i) := by
  intro k _ word hfront hmatch
  obtain ⟨n, -, -, hfound | ⟨-, hvalid⟩⟩ := outdoes_of_matches hread hfront hmatch
  · have hk : k = .invalid := (congrArg Prod.fst hfound).symm.trans hinvalid
    obtain ⟨cs, hcs, -⟩ := hmatch
    rw [hk] at hcs
    cases hcs
  · exact hvalid hinvalid

/-- Bytes match one pattern at most, so the order of the classes never decides. -/
theorem eq_of_matches (hread : Text.ofBytesFrom b i = g :: rest) {k : LexClass}
    (hfront : (found g rest).bytes <+: b.data.toList.drop i)
    (h : k.Matches (found g rest).bytes) : k = (found g rest).kind := by
  obtain ⟨n, hn, hword, hout⟩ := outdoes_of_matches hread hfront h
  rcases hout with hfound | ⟨hlt, -⟩
  · exact (congrArg Prod.fst hfound).symm
  · have hle := classify_le g rest
    have hshorter : (Text.toBytes (g :: rest.take n)).length < (found g rest).bytes.length := by
      apply Text.length_toBytes_lt
      · exact (List.prefix_cons_inj g).mpr (List.take_prefix_take_left (Nat.le_of_lt hlt))
      · simp only [found, List.length_cons, List.length_take]
        omega
    exact absurd (congrArg List.length hword) (Nat.ne_of_gt hshorter)

theorem isLongestMatch_of_valid (hread : Text.ofBytesFrom b i = g :: rest)
    (hvalid : (found g rest).kind ≠ .invalid) :
    IsLongestMatch (b.data.toList.drop i) (found g rest) := by
  have hfront : (found g rest).bytes <+: b.data.toList.drop i := by
    rw [← Text.toBytes_ofBytesFrom, hread]
    exact Text.toBytes_prefix ((List.prefix_cons_inj g).mpr (List.take_prefix _ _))
  refine ⟨hfront, ?_, ?_, ?_⟩
  · obtain ⟨cs, hcs, htext⟩ := fits_classify g rest hvalid
    exact ⟨cs, hcs, congrArg Text.toBytes htext⟩
  · intro k _ word hword hmatch
    obtain ⟨n, -, rfl, hout⟩ := outdoes_of_matches hread hword hmatch
    have hle : n ≤ (classify g rest).2 := by
      rcases hout with hfound | ⟨hlt, -⟩
      · rw [hfound]
      · exact Nat.le_of_lt hlt
    apply List.IsPrefix.length_le
    exact Text.toBytes_prefix ((List.prefix_cons_inj g).mpr (List.take_prefix_take_left hle))
  · have hmem : (found g rest).kind ∈ LexClass.all := by
      generalize (found g rest).kind = k at hvalid
      cases k with
      | invalid => exact absurd rfl hvalid
      | symbol s => cases s <;> decide
      | _ => decide
    obtain ⟨ahead, behind, hsplit⟩ := List.append_of_mem hmem
    refine ⟨ahead, behind, hsplit, ?_⟩
    intro k hk hmatch
    have hnodup : (ahead ++ (found g rest).kind :: behind).Nodup := hsplit ▸ (by decide)
    obtain rfl := eq_of_matches hread hfront hmatch
    exact (List.nodup_append.mp hnodup).2.2 _ hk _ List.mem_cons_self rfl

end Reading

/-! ## 2. Where a lexeme starts -/

theorem cut_eq_cons {t : Text} {l : Lexeme} {back : List Lexeme} (h : cut t = l :: back) :
    ∃ g rest, t = g :: rest ∧ l = found g rest := by
  cases t with
  | nil =>
    rw [cut] at h
    cases h
  | cons g rest =>
    rw [cut] at h
    exact ⟨g, rest, rfl, (List.cons.inj h).1.symm⟩

/-- What is left of a text behind some of its lexemes is cut into the others. -/
theorem cut_of_append {t : Text} {front back : List Lexeme} (h : cut t = front ++ back) :
    cut (back.flatMap (·.text)) = back := by
  induction front generalizing t with
  | nil =>
    rw [List.nil_append] at h
    rw [← h, flatMap_text_cut]
  | cons l front ih =>
    cases t with
    | nil =>
      rw [cut] at h
      cases h
    | cons g rest =>
      rw [cut] at h
      exact ih (List.cons.inj h).2

/-- A valid lexeme is not joined with others, and an invalid one starts where the first of those
starts which are joined to it. -/
theorem mergeInvalid_split {ls front back : List Lexeme} {l : Lexeme}
    (h : mergeInvalid ls = front ++ l :: back) :
    ∃ front' l' back', ls = front' ++ l' :: back' ∧
      front'.flatMap (·.text) = front.flatMap (·.text) ∧ l'.kind = l.kind ∧
      (l.kind ≠ .invalid → l' = l) := by
  induction ls generalizing front with
  | nil =>
    rw [mergeInvalid] at h
    simp at h
  | cons x ls ih =>
    -- Unless it is joined with the one behind it, the first lexeme stays as it is.
    have hhere : l = x → ∃ front' l' back', x :: ls = front' ++ l' :: back' ∧
        front'.flatMap (·.text) = ([] : List Lexeme).flatMap (·.text) ∧ l'.kind = l.kind ∧
        (l.kind ≠ .invalid → l' = l) := fun hl =>
      ⟨[], x, ls, rfl, rfl, by rw [hl], fun _ => hl.symm⟩
    rw [mergeInvalid] at h
    split at h
    · cases front with
      | nil => exact hhere (List.cons.inj h).1.symm
      | cons y front => simp at h
    · rename_i m ms hm
      split at h
      · -- Two invalid lexemes are joined, and the joined one starts where the first of them does.
        rename_i hboth
        cases front with
        | nil =>
          have hl := (List.cons.inj h).1
          have hinvalid : l.kind = .invalid := by rw [← hl]
          exact ⟨[], x, ls, rfl, rfl, hboth.1.trans hinvalid.symm, fun hne => absurd hinvalid hne⟩
        | cons y front =>
          obtain ⟨rfl, rfl⟩ := List.cons.inj h
          have hmore : mergeInvalid ls = (m :: front) ++ l :: back := hm
          obtain ⟨front', l', back', rfl, htext, hkind, hvalid⟩ := ih hmore
          refine ⟨x :: front', l', back', rfl, ?_, hkind, hvalid⟩
          simp only [List.flatMap_cons] at htext ⊢
          rw [htext, List.append_assoc]
      · cases front with
        | nil => exact hhere (List.cons.inj h).1.symm
        | cons y front =>
          obtain ⟨rfl, hrest⟩ := List.cons.inj h
          obtain ⟨front', l', back', rfl, htext, hkind, hvalid⟩ := ih (hm.trans hrest)
          refine ⟨x :: front', l', back', rfl, ?_, hkind, hvalid⟩
          simp only [List.flatMap_cons] at htext ⊢
          rw [htext]

/-- What is found where a lexeme starts gives its class, and all of it when it is valid. -/
theorem scan_split {t : Text} {front back : List Lexeme} {l : Lexeme}
    (h : scan t = front ++ l :: back) :
    ∃ g rest, t = front.flatMap (·.text) ++ g :: rest ∧ (found g rest).kind = l.kind ∧
      (l.kind ≠ .invalid → l = found g rest) := by
  obtain ⟨front', l', back', hcut, htext, hkind, hvalid⟩ := mergeInvalid_split h
  obtain ⟨g, rest, hstart, hl'⟩ := cut_eq_cons (cut_of_append hcut)
  refine ⟨g, rest, ?_, by rw [← hkind, hl'], fun hne => by rw [← hvalid hne, hl']⟩
  rw [← flatMap_text_cut t, hcut, List.flatMap_append, htext, hstart]

end Lexeme

/-! ## 3. What a lexeme means -/

/-- What stands between the quotes of a string literal, and the characters that it stands for: a
backslash gives way to the character behind it. -/
inductive Unescaped : List Char → List Char → Prop
  | nil : Unescaped [] []
  | plain {c : Char} {body cs : List Char} (hc : c ≠ '\\') (rest : Unescaped body cs) :
    Unescaped (c :: body) (c :: cs)
  | escaped {c : Char} {body cs : List Char} (rest : Unescaped body cs) :
    Unescaped ('\\' :: c :: body) (c :: cs)

/-- What the characters of a lexeme mean, and the text that a token has from them. -/
inductive Means : LexClass → List Char → Token.Kind → List Char → Prop
  | identifier (cs : List Char) : Means .identifier cs (.identifier (String.ofList cs)) cs
  | keyCount (ds : List Char) :
    Means .keyCount (ds ++ ['k']) (.keyCount (Nat.ofDigitChars 10 ds 0)) (ds ++ ['k'])
  | spaceCount (ds : List Char) :
    Means .spaceCount (ds ++ ['s']) (.spaceCount (Nat.ofDigitChars 10 ds 0)) (ds ++ ['s'])
  | integer (ds : List Char) : Means .integer ds (.integer (Nat.ofDigitChars 10 ds 0)) ds
  | character (c : Char) : Means .character ['\'', c, '\''] (.character c) ['\'', c, '\'']
  | string {body cs : List Char} (h : Unescaped body cs) :
    Means .string ('\"' :: body ++ ['\"']) (.string (String.ofList cs)) cs
  | symbol (s : Symbol) : Means (.symbol s) s.text.toList (.symbol s) s.text.toList

/-- A token that has its meaning and its text from a lexeme. An invalid lexeme means nothing and
stays as it is. -/
inductive Token.Decodes (l : Lexeme) (t : Token) : Prop
  | valid (cs text : List Char) (lexeme : t.lexeme = l.text) (chars : l.text = Text.ofChars cs)
    (meaning : Means l.kind cs t.kind text) (carried : t.text = Text.ofChars text)
  | invalid (lexeme : t.lexeme = l.text) (class_eq : l.kind = .invalid)
    (kind_eq : t.kind = .invalid) (carried : t.text = l.text)

namespace Token

open Pattern

theorem unescaped_unescape {body : List Char} (h : body ∈ KStar.kstar inside) :
    Unescaped body (unescape body) := by
  obtain ⟨ws, rfl, hws⟩ := Language.mem_kstar.mp h
  clear h
  induction ws with
  | nil => exact .nil
  | cons w ws ih =>
    have hrest := ih fun v hv => hws v (List.mem_cons_of_mem _ hv)
    rcases mem_inside (hws w List.mem_cons_self) with ⟨c, -, -, hslash, rfl⟩ | ⟨c, -, rfl⟩
    · have hplain : unescape (c :: ws.flatten) = c :: unescape ws.flatten := by
        simp [unescape, hslash]
      rw [List.flatten_cons, List.singleton_append, hplain]
      exact .plain hslash hrest
    · exact .escaped hrest

theorem numberKind_of_ne_oversized {make : Nat → Kind} {ds : List Char}
    (h : numberKind make ds ≠ .oversized) :
    numberKind make ds = make (Nat.ofDigitChars 10 ds 0) := by
  have hvalue : digitsValue ds = Nat.ofDigitChars 10 ds 0 := Nat.ofDigitChars_eq_foldl.symm
  unfold numberKind at h ⊢
  dsimp only at h ⊢
  split
  · rw [hvalue]
  · rename_i hlarge
    rw [if_neg hlarge] at h
    exact absurd rfl h

/-- A word of a pattern means what its class makes of it. -/
theorem means_ofLexeme? {k : LexClass} {cs : List Char} (hcs : cs ∈ k.pattern) {kind : Kind}
    (hkind : Kind.ofLexeme? ⟨k, Text.ofChars cs⟩ = some kind) (hsmall : kind ≠ .oversized)
    (span : Span) :
    ∃ text, Means k cs kind text ∧
      (Token.mk kind (Text.ofChars cs) span).text = Text.ofChars text := by
  unfold Kind.ofLexeme? at hkind
  simp only [charsOf_ofChars] at hkind
  cases k with
  | blank => cases hkind
  | newline => cases hkind
  | identifier =>
    obtain rfl := Option.some.inj hkind
    exact ⟨cs, .identifier cs, rfl⟩
  | keyCount =>
    obtain ⟨ds, -, rfl⟩ := mem_mul_exactly.mp hcs
    obtain rfl := Option.some.inj hkind
    rw [List.dropLast_concat] at hsmall ⊢
    rw [numberKind_of_ne_oversized hsmall]
    exact ⟨_, .keyCount ds, rfl⟩
  | spaceCount =>
    obtain ⟨ds, -, rfl⟩ := mem_mul_exactly.mp hcs
    obtain rfl := Option.some.inj hkind
    rw [List.dropLast_concat] at hsmall ⊢
    rw [numberKind_of_ne_oversized hsmall]
    exact ⟨_, .spaceCount ds, rfl⟩
  | integer =>
    obtain rfl := Option.some.inj hkind
    rw [numberKind_of_ne_oversized hsmall]
    exact ⟨_, .integer cs, rfl⟩
  | character =>
    obtain ⟨c, -, rfl⟩ := mem_character.mp hcs
    obtain rfl := Option.some.inj hkind
    exact ⟨_, .character c, rfl⟩
  | string =>
    obtain ⟨body, hbody, rfl⟩ := mem_string.mp hcs
    obtain rfl := Option.some.inj hkind
    have hinner : ('\"' :: body ++ ['\"']).tail.dropLast = body := List.dropLast_concat
    rw [hinner]
    refine ⟨_, .string (unescaped_unescape hbody), ?_⟩
    simp [Token.text, Text.ofString]
  | symbol s =>
    obtain rfl : cs = s.text.toList := hcs
    obtain rfl := Option.some.inj hkind
    exact ⟨_, .symbol s, rfl⟩
  | invalid => cases hcs

end Token

/-! ## 4. The lexemes and the tokens of a source -/

namespace Lexeme

/-- Blanks and line ends mean nothing. -/
def isSkipped (l : Lexeme) : Bool :=
  l.kind = .blank || l.kind = .newline

theorem isSkipped_iff {l : Lexeme} : l.isSkipped = true ↔ Token.Kind.ofLexeme? l = none := by
  obtain ⟨kind, text⟩ := l
  cases kind <;> simp [isSkipped, Token.Kind.ofLexeme?]

theorem flatMap_bytes (ls : List Lexeme) :
    ls.flatMap bytes = Text.toBytes (ls.flatMap (·.text)) := by
  induction ls with
  | nil => rfl
  | cons l ls ih =>
    rw [List.flatMap_cons, List.flatMap_cons, Text.toBytes_append, ih]
    rfl

/-- A valid lexeme of a source is a longest match, and an invalid one stands where nothing
matches. -/
theorem scan_matches {b : ByteArray} {front back : List Lexeme} {l : Lexeme}
    (h : scan (Text.ofBytes b) = front ++ l :: back) :
    (l.kind ≠ .invalid → IsLongestMatch ((l :: back).flatMap bytes) l) ∧
      (l.kind = .invalid → NoMatch ((l :: back).flatMap bytes)) := by
  obtain ⟨g, rest, htext, hkind, hfound⟩ := scan_split h
  have hread := Text.ofBytesFrom_append_eq (show Text.ofBytesFrom b 0 = _ from htext)
  -- What is left is the bytes of this lexeme and of those behind it.
  have hinput : b.data.toList.drop (0 + (Text.toBytes (front.flatMap (·.text))).length) =
      (l :: back).flatMap bytes := by
    have hall := flatMap_text_scan (Text.ofBytes b)
    rw [h, List.flatMap_append] at hall
    rw [← Text.toBytes_ofBytesFrom, ← hread, flatMap_bytes,
      List.append_cancel_left (hall.trans htext)]
  rw [← hinput]
  constructor
  · intro hvalid
    rw [hfound hvalid]
    exact isLongestMatch_of_valid hread.symm (hkind ▸ hvalid)
  · intro hinvalid
    exact noMatch_of_invalid hread.symm (hkind.trans hinvalid)

end Lexeme

namespace TokenStream

theorem decodes_tokenOf? {source : Text} {l : Lexeme} (hl : l ∈ scan source) {p : Position}
    {t : Token} (ht : tokenOf? (l, p) = some t) (hsmall : t.kind ≠ .oversized) :
    Token.Decodes l t := by
  obtain ⟨kind, hkind, rfl⟩ := Option.map_eq_some_iff.mp ht
  by_cases hinvalid : l.kind = .invalid
  · have hk : kind = .invalid := by
      simp only [Token.Kind.ofLexeme?, hinvalid] at hkind
      exact (Option.some.inj hkind).symm
    exact .invalid rfl hinvalid hk (by simp [Token.text, hk])
  · have hcut := (Token.mem_mergeInvalid hl).resolve_right hinvalid
    obtain ⟨g, rest, rfl⟩ := Token.mem_cut hcut
    obtain ⟨cs, hcs, htext⟩ := fits_classify g rest hinvalid
    simp only [htext] at hkind ⊢
    obtain ⟨text, hmeans, hcarried⟩ := Token.means_ofLexeme? hcs hkind hsmall _
    exact .valid cs text rfl rfl hmeans hcarried

/-- Every lexeme that is not skipped gives one token, in order. -/
theorem forall₂_decodes {source : Text} (ls : List Lexeme) (p : Position)
    (hls : ∀ l ∈ ls, l ∈ scan source)
    (hsmall : ∀ t ∈ (locate p ls).filterMap tokenOf?, t.kind ≠ .oversized) :
    List.Forall₂ Token.Decodes (ls.filter (!·.isSkipped)) ((locate p ls).filterMap tokenOf?) := by
  induction ls generalizing p with
  | nil => exact .nil
  | cons l ls ih =>
    rw [locate] at hsmall ⊢
    have hrest := fun hs => ih (l.next p) (fun m hm => hls m (List.mem_cons_of_mem _ hm)) hs
    cases htoken : tokenOf? (l, p) with
    | none =>
      have hskip : l.isSkipped = true := isSkipped_iff.mpr (Option.map_eq_none_iff.mp htoken)
      rw [List.filterMap_cons_none htoken] at hsmall ⊢
      rw [List.filter_cons_of_neg (by simp [hskip])]
      exact hrest hsmall
    | some t =>
      have hkeep : l.isSkipped = false := by
        rw [← Bool.not_eq_true, isSkipped_iff]
        intro hnone
        simp [tokenOf?, hnone] at htoken
      rw [List.filterMap_cons_some htoken] at hsmall ⊢
      rw [List.filter_cons_of_pos (by simp [hkeep])]
      refine .cons ?_ (hrest fun u hu => hsmall u (List.mem_cons_of_mem _ hu))
      exact decodes_tokenOf? (hls l List.mem_cons_self) htoken (hsmall t List.mem_cons_self)

theorem readable_eq_none {s : TokenStream} {tokens : List Token}
    (h : s.readable = (tokens, none)) :
    tokens = s.tokens ++ [Token.endOfFile s.stop] ∧ ∀ t ∈ s.tokens, t.kind ≠ .oversized := by
  unfold readable at h
  dsimp only at h
  split at h
  · rename_i hfind
    have hsmall : ∀ t ∈ s.tokens, t.kind ≠ .oversized := by simpa using hfind
    have hall : s.tokens.takeWhile (·.kind ≠ .oversized) = s.tokens :=
      List.takeWhile_eq_self_iff.mpr (by simpa using hsmall)
    rw [hall] at h
    exact ⟨(congrArg Prod.fst h).symm, hsmall⟩
  · cases congrArg Prod.snd h

/-- Where no number is too large, the lexemes of a source are its bytes. Each is the longest match
in front of what is left, of the first class that has it, or is invalid where nothing matches; and
every lexeme that is not skipped is a token that carries what it means. -/
theorem readable_longestMatches (b : ByteArray) {tokens : List Token}
    (h : (ofText (Text.ofBytes b)).readable = (tokens, none)) :
    (scan (Text.ofBytes b)).flatMap bytes = b.data.toList ∧
      (∀ front l back, scan (Text.ofBytes b) = front ++ l :: back →
        (l.kind ≠ .invalid → IsLongestMatch ((l :: back).flatMap bytes) l) ∧
          (l.kind = .invalid → NoMatch ((l :: back).flatMap bytes))) ∧
      ∃ words stop, tokens = words ++ [Token.endOfFile stop] ∧
        List.Forall₂ Token.Decodes ((scan (Text.ofBytes b)).filter (!·.isSkipped)) words := by
  obtain ⟨htokens, hsmall⟩ := readable_eq_none h
  refine ⟨?_, fun front l back => scan_matches, _, _, htokens, ?_⟩
  · rw [flatMap_bytes, flatMap_text_scan, Text.toBytes_ofBytes]
  · exact forall₂_decodes _ _ (fun l hl => hl) hsmall

/-- The bytes of `@~01k"\"é"`, two that belong to no character, and those of `'''`, a line end
and `@`. -/
theorem readable_longestMatches_strayBytes :
    let b : ByteArray := ⟨#[64, 126, 48, 49, 107, 34, 92, 34, 195, 169, 34, 255, 128, 39, 39, 39,
      13, 10, 64]⟩
    let lexemes := scan (Text.ofBytes b)
    (ofText (Text.ofBytes b)).readable.2 = none ∧
      lexemes.flatMap bytes = b.data.toList ∧
      (∀ front l back, lexemes = front ++ l :: back →
        (l.kind ≠ .invalid → IsLongestMatch ((l :: back).flatMap bytes) l) ∧
          (l.kind = .invalid → NoMatch ((l :: back).flatMap bytes))) ∧
      ∃ words stop, (ofText (Text.ofBytes b)).readable.1 = words ++ [Token.endOfFile stop] ∧
        List.Forall₂ Token.Decodes (lexemes.filter (!·.isSkipped)) words := by
  intro b lexemes
  have h : (ofText (Text.ofBytes b)).readable.2 = none := by decide +kernel
  exact ⟨h, readable_longestMatches b (Prod.ext rfl h)⟩

end TokenStream

end Keyplan
