import Keyplan.Proofs.Text
import Keyplan.Token.Lexer

/-!
# Spelling — tokens and the characters they are read from

Every token that is read can be spelled: a name is made of name characters, a number is small
enough, and no literal holds a line end. Conversely, characters that spell a token are read back
as that token, whatever follows them, as long as it does not go on with the token.
-/

namespace Keyplan.Token

open Lexeme

/-! ## What is read can be spelled -/

/-- What holds of the tokens that are read. -/
def Kind.Spellable : Kind → Prop
  | identifier name => ∃ c cs, name.toList = c :: cs ∧ isNameStart c ∧ ∀ d ∈ cs, isNamePart d
  | keyCount n => n < Word.signedEnd
  | spaceCount n => n < Word.signedEnd
  | integer n => n < Word.signedEnd
  | character c => isLineEnd c = false
  | string contents => ∀ c ∈ contents.toList, isLineEnd c = false
  | _ => True

theorem mem_cut {t : Text} {l : Lexeme} (h : l ∈ cut t) :
    ∃ g rest, l = ⟨(classify g rest).1, g :: rest.take (classify g rest).2⟩ := by
  fun_induction cut t with
  | case1 => cases h
  | case2 g rest kind n hclass ih =>
    rcases List.mem_cons.mp h with rfl | h
    · exact ⟨g, rest, by rw [hclass]⟩
    · exact ih h

theorem mem_mergeInvalid {ls : List Lexeme} {l : Lexeme} (h : l ∈ mergeInvalid ls) :
    l ∈ ls ∨ l.kind = .invalid := by
  induction ls generalizing l with
  | nil => cases h
  | cons x ls ih =>
    rw [mergeInvalid] at h
    split at h
    · exact .inl (List.mem_singleton.mp h ▸ List.mem_cons_self)
    · rename_i m ms hm
      split at h
      -- Two invalid lexemes are joined to one; all others stay.
      · rcases List.mem_cons.mp h with rfl | h
        · exact .inr rfl
        · have := ih (hm ▸ List.mem_cons_of_mem m h)
          exact this.imp_left (List.mem_cons_of_mem x)
      · rcases List.mem_cons.mp h with rfl | h
        · exact .inl List.mem_cons_self
        · exact (ih (hm ▸ h)).imp_left (List.mem_cons_of_mem x)

theorem mem_take_runLength {p : Char → Bool} {t : Text} {g : Glyph}
    (h : g ∈ t.take (runLength p t)) : ∃ c, g = .char c ∧ p c := by
  have hrun : t.take (runLength p t) = t.takeWhile (isChar p) :=
    (List.prefix_iff_eq_take.mp (List.takeWhile_prefix _)).symm
  rw [hrun] at h
  have hp := List.all_eq_true.mp List.all_takeWhile g h
  cases g with
  | char c => exact ⟨c, rfl, hp⟩
  | stray b => cases hp

theorem characterTail_class (t : Text) :
    (characterTail t).1 = .character ∨ (characterTail t).1 = .invalid := by
  unfold characterTail
  split
  · split
    · exact .inr rfl
    · split <;> simp
  · exact .inr rfl

theorem characterTail_eq_character {t : Text} (h : (characterTail t).1 = .character) :
    ∃ c rest, t = .char c :: .char '\'' :: rest ∧ isLineEnd c = false ∧
      (characterTail t).2 = 2 := by
  unfold characterTail at h ⊢
  split at h
  · rename_i c rest
    split at h
    · cases h
    · rename_i hc
      split at h
      · rename_i rest'
        refine ⟨c, rest', rfl, by simpa using hc, ?_⟩
        simp [hc]
      · cases h
      · cases h
  · cases h

theorem stringTail_class (escaped : Bool) (t : Text) :
    (stringTail escaped t).1 = .string ∨ (stringTail escaped t).1 = .invalid := by
  fun_induction stringTail escaped t <;> simp_all

theorem stringTail_eq_string {escaped : Bool} {t : Text}
    (h : (stringTail escaped t).1 = .string) :
    ∀ g ∈ t.take (stringTail escaped t).2, isLineEnd g.shown = false := by
  -- Whether a character is escaped matters for quotes only, line ends stop both ways.
  fun_induction stringTail escaped t with
  | case1 => cases h
  | case2 escaped c rest hc hquote =>
    intro g hg
    rw [List.take_succ_cons, List.take_zero, List.mem_singleton] at hg
    subst hg
    exact (Bool.not_eq_true _).mp hc
  | case3 escaped c rest hc hquote kind n hrest ih =>
    intro g hg
    rw [List.take_succ_cons, List.mem_cons] at hg
    rcases hg with rfl | hg
    · exact (Bool.not_eq_true _).mp hc
    · rw [hrest] at ih
      exact ih h g hg
  | case4 => cases h
  | case5 => cases h

theorem mem_of_mem_unescape {c : Char} {cs : List Char} (h : c ∈ unescape cs) : c ∈ cs := by
  fun_induction unescape cs with
  | case1 => cases h
  | case2 => cases h
  -- An escaped character stays, its backslash goes.
  | case3 d rest ih =>
    rcases List.mem_cons.mp h with rfl | h
    · exact List.mem_cons_of_mem _ List.mem_cons_self
    · exact List.mem_cons_of_mem _ (List.mem_cons_of_mem _ (ih h))
  | case4 d rest _ _ ih =>
    rcases List.mem_cons.mp h with rfl | h
    · exact List.mem_cons_self
    · exact List.mem_cons_of_mem _ (ih h)

theorem numberKind_spellable {make : Nat → Kind} {digits : List Char}
    (h : ∀ n < Word.signedEnd, (make n).Spellable) : (numberKind make digits).Spellable := by
  unfold numberKind
  simp only []
  split
  · exact h _ ‹_›
  · trivial

/-- The classes whose lexemes have to be looked into. -/
theorem classify_cases (g : Glyph) (rest : Text) :
    ((classify g rest).1 = .identifier →
        isNameStart g.shown ∧ (classify g rest).2 = runLength isNamePart rest) ∧
      ((classify g rest).1 = .character → classify g rest = characterTail rest) ∧
      ((classify g rest).1 = .string → classify g rest = stringTail false rest) := by
  -- Literals never give the class of anything else.
  have hchar : (characterTail rest).1 ≠ .identifier ∧ (characterTail rest).1 ≠ .string := by
    rcases characterTail_class rest with h | h <;> simp [h]
  have hstring : (stringTail false rest).1 ≠ .identifier ∧
      (stringTail false rest).1 ≠ .character := by
    rcases stringTail_class false rest with h | h <;> simp [h]
  -- One split for each test in the order `classify` makes them.
  unfold classify
  split
  · simp
  · rename_i c
    split
    · simp
    split
    · simp
    split
    · simp
    split
    · rename_i hname
      simp [Glyph.shown, hname]
    split
    · dsimp only
      split <;> simp
    split
    · simp [hchar]
    split
    · simp [hstring]
    split
    · simp
    split <;> simp

theorem spellable_of_mem_cut {t : Text} {l : Lexeme} {k : Kind} (hl : l ∈ cut t)
    (hk : Kind.ofLexeme? l = some k) : k.Spellable := by
  obtain ⟨g, rest, rfl⟩ := mem_cut hl
  obtain ⟨hname, hchar, hstring⟩ := classify_cases g rest
  unfold Kind.ofLexeme? at hk
  simp only [] at hk
  -- One case for each class; most of them are spelled by any lexeme.
  split at hk
  · cases hk
  · cases hk
  · rename_i hclass
    obtain rfl := Option.some.inj hk
    obtain ⟨hstart, hlen⟩ := hname hclass
    refine ⟨g.shown, charsOf (rest.take (classify g rest).2), by simp [charsOf], hstart, ?_⟩
    intro d hd
    rw [hlen] at hd
    obtain ⟨g', hg', rfl⟩ := List.mem_map.mp hd
    obtain ⟨d, rfl, hpart⟩ := mem_take_runLength hg'
    exact hpart
  · obtain rfl := Option.some.inj hk
    exact numberKind_spellable fun n hn => hn
  · obtain rfl := Option.some.inj hk
    exact numberKind_spellable fun n hn => hn
  · obtain rfl := Option.some.inj hk
    exact numberKind_spellable fun n hn => hn
  · rename_i hclass
    obtain rfl := Option.some.inj hk
    have htail := hchar hclass
    obtain ⟨c, rest', rfl, hc, htwo⟩ := characterTail_eq_character (htail ▸ hclass)
    rw [htail, htwo]
    exact hc
  · rename_i hclass
    obtain rfl := Option.some.inj hk
    have htail := hstring hclass
    intro c hc
    rw [String.toList_ofList] at hc
    have hc := (List.dropLast_sublist _).subset (mem_of_mem_unescape hc)
    rw [htail] at hc
    obtain ⟨g', hg', rfl⟩ := List.mem_map.mp hc
    exact stringTail_eq_string (htail ▸ hclass) g' hg'
  · obtain rfl := Option.some.inj hk
    trivial
  · obtain rfl := Option.some.inj hk
    trivial

theorem map_fst_locate (p : Position) (ls : List Lexeme) : (locate p ls).map (·.1) = ls := by
  induction ls generalizing p with
  | nil => rfl
  | cons l ls ih => rw [locate, List.map_cons, ih]

/-- The kinds of the tokens of a text are those of its lexemes. -/
theorem kinds_ofText (source : Text) :
    (TokenStream.ofText source).tokens.map (·.kind) = (scan source).filterMap Kind.ofLexeme? := by
  have hkind : ∀ entry : Lexeme × Position,
      (TokenStream.tokenOf? entry).map (·.kind) = Kind.ofLexeme? entry.1 := by
    rintro ⟨l, p⟩
    simp only [TokenStream.tokenOf?, Option.map_map]
    exact Option.map_id'
  show ((locate _ (scan source)).filterMap TokenStream.tokenOf?).map _ = _
  rw [List.map_filterMap]
  simp only [hkind]
  -- Places do not change what a lexeme means.
  calc (locate _ (scan source)).filterMap (fun e => Kind.ofLexeme? e.1)
      = ((locate _ (scan source)).map (·.1)).filterMap Kind.ofLexeme? := by
        rw [List.filterMap_map]
        rfl
    _ = (scan source).filterMap Kind.ofLexeme? := by rw [map_fst_locate { row := 1, col := 1 }]

theorem spellable_of_mem_tokens {source : Text} {t : Token}
    (h : t ∈ (TokenStream.ofText source).tokens) : t.kind.Spellable := by
  have hmem := List.mem_map_of_mem (f := (·.kind)) h
  rw [kinds_ofText] at hmem
  obtain ⟨l, hl, hk⟩ := List.mem_filterMap.mp hmem
  -- A joined lexeme is invalid, and an invalid token needs no spelling.
  rcases mem_mergeInvalid hl with hcut | hinvalid
  · exact spellable_of_mem_cut hcut hk
  · simp only [Kind.ofLexeme?, hinvalid, Option.some.injEq] at hk
    rw [← hk]
    trivial

/-! ## What is spelled reads back -/

/-- The kinds of the lexemes of characters, invalid lexemes not joined. -/
def kindsOf (cs : List Char) : List Kind :=
  (cut (Text.ofChars cs)).filterMap Kind.ofLexeme?

@[simp] theorem charsOf_ofChars (cs : List Char) : charsOf (Text.ofChars cs) = cs := by
  simp [charsOf, Text.ofChars, Function.comp_def, Glyph.shown]

/-- A valid lexeme is joined with nothing behind it. -/
theorem mergeInvalid_cons {l : Lexeme} (hl : l.kind ≠ .invalid) (ls : List Lexeme) :
    mergeInvalid (l :: ls) = l :: mergeInvalid ls := by
  rw [mergeInvalid]
  split
  · rename_i hnil
    rw [hnil]
  · rename_i m ms hrest
    rw [hrest, if_neg fun e => hl e.1]

theorem mergeInvalid_eq_self {ls : List Lexeme} (h : ∀ l ∈ ls, l.kind ≠ .invalid) :
    mergeInvalid ls = ls := by
  induction ls with
  | nil => rfl
  | cons l ls ih =>
    rw [mergeInvalid_cons (h l List.mem_cons_self), ih fun l' hl' =>
      h l' (List.mem_cons_of_mem _ hl')]

/-- Without an invalid lexeme there is nothing to join. -/
theorem kinds_ofText_ofChars {cs : List Char} (h : Kind.invalid ∉ kindsOf cs) :
    (TokenStream.ofText (Text.ofChars cs)).tokens.map (·.kind) = kindsOf cs := by
  have hvalid : ∀ l ∈ cut (Text.ofChars cs), l.kind ≠ .invalid := by
    intro l hl hkind
    apply h
    exact List.mem_filterMap.mpr ⟨l, hl, by simp [Kind.ofLexeme?, hkind]⟩
  rw [kinds_ofText, scan, mergeInvalid_eq_self hvalid]
  rfl

theorem cut_lexeme (g : Glyph) (piece rest : Text) (kind : LexClass)
    (h : classify g (piece ++ rest) = (kind, piece.length)) :
    cut (g :: (piece ++ rest)) = ⟨kind, g :: piece⟩ :: cut rest := by
  rw [cut, h]
  simp only [List.take_left, List.drop_left]

theorem kindsOf_lexeme (c : Char) (piece rest : List Char) (kind : LexClass)
    (h : classify (.char c) (Text.ofChars (piece ++ rest)) = (kind, piece.length)) :
    kindsOf (c :: (piece ++ rest)) =
      (Kind.ofLexeme? ⟨kind, Text.ofChars (c :: piece)⟩).toList ++ kindsOf rest := by
  have hcut : cut (Text.ofChars (c :: (piece ++ rest))) =
      ⟨kind, Text.ofChars (c :: piece)⟩ :: cut (Text.ofChars rest) := by
    show cut (.char c :: Text.ofChars (piece ++ rest)) = _
    rw [Text.ofChars_append, ← Text.length_ofChars piece] at h
    rw [Text.ofChars_append]
    exact cut_lexeme (.char c) (Text.ofChars piece) (Text.ofChars rest) kind h
  unfold kindsOf
  rw [hcut, List.filterMap_cons]
  cases Kind.ofLexeme? ⟨kind, Text.ofChars (c :: piece)⟩ <;> rfl

/-- Characters that do not begin with one that has a property. -/
def StopsAt (p : Char → Bool) (rest : List Char) : Prop :=
  ∀ c, rest.head? = some c → p c = false

theorem runLength_append {p : Char → Bool} {piece rest : List Char} (hpiece : ∀ c ∈ piece, p c)
    (hrest : StopsAt p rest) : runLength p (Text.ofChars (piece ++ rest)) = piece.length := by
  unfold runLength
  induction piece with
  -- The run ends where the text ends or at the first character of `rest`.
  | nil =>
    cases rest with
    | nil => rfl
    | cons c rest =>
      have hc : isChar p (.char c) = false := hrest c rfl
      simp [Text.ofChars, hc]
  | cons c piece ih =>
    have hc : isChar p (.char c) = true := hpiece c List.mem_cons_self
    show (List.takeWhile (isChar p) (.char c :: Text.ofChars (piece ++ rest))).length = _
    rw [List.takeWhile_cons, if_pos hc, List.length_cons, List.length_cons,
      ih fun d hd => hpiece d (List.mem_cons_of_mem _ hd)]

theorem kindsOf_nil : kindsOf [] = [] := by
  unfold kindsOf
  rw [show Text.ofChars [] = [] from rfl, cut]
  rfl

/-- A run of blanks is one lexeme. -/
theorem kindsOf_blank_run {c : Char} (hc : isBlank c) (rest : List Char) :
    kindsOf (c :: rest) = kindsOf (rest.dropWhile isBlank) := by
  have hpiece : ∀ d ∈ rest.takeWhile isBlank, isBlank d :=
    List.all_eq_true.mp List.all_takeWhile
  have hstop : StopsAt isBlank (rest.dropWhile isBlank) := by
    intro d hd
    have hnot := List.head?_dropWhile_not isBlank rest
    rw [hd] at hnot
    exact hnot
  have hclass : classify (.char c) (Text.ofChars (rest.takeWhile isBlank ++ rest.dropWhile isBlank))
      = (.blank, (rest.takeWhile isBlank).length) := by
    simp only [classify, if_pos hc, runLength_append hpiece hstop]
  have hrun := kindsOf_lexeme c (rest.takeWhile isBlank) (rest.dropWhile isBlank) .blank hclass
  rwa [List.takeWhile_append_dropWhile] at hrun

theorem kindsOf_blank {c : Char} (hc : isBlank c) (rest : List Char) :
    kindsOf (c :: rest) = kindsOf rest := by
  rw [kindsOf_blank_run hc]
  cases rest with
  | nil => rfl
  | cons d rest =>
    -- A blank before other blanks is part of their run.
    by_cases hd : isBlank d
    · rw [List.dropWhile_cons, if_pos hd, kindsOf_blank_run hd]
    · rw [List.dropWhile_cons, if_neg hd]

/-- Blanks in front of something do not count, whichever and however many they are. -/
theorem kindsOf_gap {gap : List Char} (h : ∀ c ∈ gap, isBlank c) (rest : List Char) :
    kindsOf (gap ++ rest) = kindsOf rest := by
  induction gap with
  | nil => rfl
  | cons c gap ih =>
    rw [List.cons_append, kindsOf_blank (h c List.mem_cons_self),
      ih fun d hd => h d (List.mem_cons_of_mem _ hd)]

theorem kindsOf_newline (rest : List Char) : kindsOf ('\n' :: rest) = kindsOf rest :=
  kindsOf_lexeme '\n' [] rest .newline rfl

theorem ne_of_class {p : Char → Bool} {c : Char} (hc : p c) (d : Char) (hd : p d = false) :
    c ≠ d := by
  rintro rfl
  rw [hc] at hd
  cases hd

theorem isBlank_of_class {p : Char → Bool} {c : Char} (hc : p c) (hspace : p ' ' = false)
    (htab : p '\t' = false) : isBlank c = false := by
  simp [isBlank, ne_of_class hc _ hspace, ne_of_class hc _ htab]

theorem classify_nameStart {c : Char} (h : isNameStart c) (rest : Text) :
    classify (.char c) rest = (.identifier, runLength isNamePart rest) := by
  have hblank := isBlank_of_class h rfl rfl
  have hnl := ne_of_class h '\n' rfl
  have hcr := ne_of_class h '\r' rfl
  simp [classify, hblank, hnl, hcr, h]

theorem kindsOf_identifier {name : String} (h : (Kind.identifier name).Spellable)
    {rest : List Char} (hrest : StopsAt isNamePart rest) :
    kindsOf (name.toList ++ rest) = .identifier name :: kindsOf rest := by
  obtain ⟨c, cs, hname, hc, hcs⟩ := h
  have hclass : classify (.char c) (Text.ofChars (cs ++ rest)) = (.identifier, cs.length) := by
    rw [classify_nameStart hc, runLength_append hcs hrest]
  rw [hname, List.cons_append, kindsOf_lexeme c cs rest .identifier hclass]
  simp only [Kind.ofLexeme?, charsOf_ofChars, ← hname, String.ofList_toList]
  rfl

/-! ### Numbers -/

theorem digitsValue_toDigits (n : Nat) : digitsValue (Nat.toDigits 10 n) = n := by
  have hvalue := Nat.ofDigitChars_ten_toDigits (n := n)
  rwa [Nat.ofDigitChars_eq_foldl] at hvalue

/-- The digits of a number, split into the first one and the others. -/
theorem toDigits_eq_cons (n : Nat) :
    ∃ d ds, Nat.toDigits 10 n = d :: ds ∧ isDigit d ∧ ∀ e ∈ ds, isDigit e := by
  have hdigit : ∀ e ∈ Nat.toDigits 10 n, isDigit e := by
    intro e he
    have hd := Nat.isDigit_of_mem_toDigits (by omega) (by omega) he
    simpa [Char.isDigit, isDigit, Char.le_def] using hd
  obtain ⟨d, ds, heq⟩ := List.exists_cons_of_ne_nil (Nat.toDigits_ne_nil (n := n) (b := 10))
  rw [heq] at hdigit
  exact ⟨d, ds, heq, hdigit d List.mem_cons_self, fun e he => hdigit e (List.mem_cons_of_mem _ he)⟩

theorem isNameStart_of_digit {d : Char} (h : isDigit d) : isNameStart d = false := by
  simp only [isDigit, isNameStart, Char.le_def, UInt32.le_iff_toNat_le, Bool.and_eq_true,
    decide_eq_true_eq, Bool.or_eq_false_iff, Bool.and_eq_false_iff, decide_eq_false_iff_not] at h ⊢
  obtain ⟨-, hle⟩ := h
  -- Digits come before all letters.
  have hA : 'A'.val.toNat = 65 := rfl
  have ha : 'a'.val.toNat = 97 := rfl
  have h9 : '9'.val.toNat = 57 := rfl
  refine ⟨⟨.inl (by omega), .inl (by omega)⟩, ?_⟩
  rw [beq_eq_false_iff_ne]
  rintro rfl
  revert hle
  decide

/-- A number is classified by what stands behind its digits. -/
theorem classify_digits {d : Char} {ds rest : List Char} (hd : isDigit d)
    (hds : ∀ e ∈ ds, isDigit e) (hrest : StopsAt isDigit rest) :
    classify (.char d) (Text.ofChars (ds ++ rest)) =
      match rest.head? with
      | some 'k' => (.keyCount, ds.length + 1)
      | some 's' => (.spaceCount, ds.length + 1)
      | _ => (.integer, ds.length) := by
  have hblank := isBlank_of_class hd rfl rfl
  have hnl := ne_of_class hd '\n' rfl
  have hcr := ne_of_class hd '\r' rfl
  have hname : isNameStart d = false := isNameStart_of_digit hd
  -- The letter that is looked at stands right behind the digits.
  have hnext : (Text.ofChars (ds ++ rest))[ds.length]? = rest.head?.map .char := by
    cases rest <;> simp [Text.ofChars]
  simp only [classify, hblank, hnl, hcr, hname, hd, runLength_append hds hrest, hnext,
    Bool.false_eq_true, if_false, if_true]
  cases rest with
  | nil => rfl
  | cons c rest =>
    simp only [List.head?_cons, Option.map_some]
    split <;> split <;> simp_all

theorem numberKind_toDigits (make : Nat → Kind) {n : Nat} (h : n < Word.signedEnd) :
    numberKind make (Nat.toDigits 10 n) = make n := by
  unfold numberKind
  simp only [digitsValue_toDigits, if_pos h]

/-- A number with the letter behind it, if there is one. -/
theorem kindsOf_number {n : Nat} (h : n < Word.signedEnd) (letter rest : List Char)
    (kind : LexClass) (make : Nat → Kind)
    (hclass : ∀ d ds, isDigit d → (∀ e ∈ ds, isDigit e) →
      classify (.char d) (Text.ofChars (ds ++ (letter ++ rest))) =
        (kind, ds.length + letter.length))
    (hkind : ∀ digits, Kind.ofLexeme? ⟨kind, Text.ofChars (digits ++ letter)⟩ =
      some (numberKind make digits)) :
    kindsOf (Nat.toDigits 10 n ++ (letter ++ rest)) = make n :: kindsOf rest := by
  obtain ⟨d, ds, hdigits, hd, hds⟩ := toDigits_eq_cons n
  have hread := kindsOf_lexeme d (ds ++ letter) rest kind (by
    rw [List.append_assoc, List.length_append]
    exact hclass d ds hd hds)
  rw [hdigits, List.cons_append, ← List.append_assoc, hread, ← List.cons_append, ← hdigits, hkind,
    numberKind_toDigits make h]
  rfl

theorem kindsOf_keyCount {n : Nat} (h : n < Word.signedEnd) (rest : List Char) :
    kindsOf (Nat.toDigits 10 n ++ 'k' :: rest) = .keyCount n :: kindsOf rest := by
  refine kindsOf_number h ['k'] rest .keyCount .keyCount ?_ ?_
  · intro d ds hd hds
    exact classify_digits hd hds fun c hc => Option.some.inj hc ▸ rfl
  · intro digits
    simp only [Kind.ofLexeme?, charsOf_ofChars, List.dropLast_concat]

theorem kindsOf_spaceCount {n : Nat} (h : n < Word.signedEnd) (rest : List Char) :
    kindsOf (Nat.toDigits 10 n ++ 's' :: rest) = .spaceCount n :: kindsOf rest := by
  refine kindsOf_number h ['s'] rest .spaceCount .spaceCount ?_ ?_
  · intro d ds hd hds
    exact classify_digits hd hds fun c hc => Option.some.inj hc ▸ rfl
  · intro digits
    simp only [Kind.ofLexeme?, charsOf_ofChars, List.dropLast_concat]

theorem kindsOf_integer {n : Nat} (h : n < Word.signedEnd) {rest : List Char}
    (hrest : StopsAt isNamePart rest) :
    kindsOf (Nat.toDigits 10 n ++ rest) = .integer n :: kindsOf rest := by
  refine kindsOf_number h [] rest .integer .integer ?_ ?_
  · intro d ds hd hds
    have hdigit : StopsAt isDigit rest := by
      intro c hc
      have := hrest c hc
      simp only [isNamePart, Bool.or_eq_false_iff] at this
      exact this.2
    refine (classify_digits hd hds hdigit).trans ?_
    split
    -- A letter behind the digits would be part of a name.
    · rename_i hk
      cases hrest _ hk
    · rename_i hs
      cases hrest _ hs
    · rfl
  · intro digits
    simp only [Kind.ofLexeme?, charsOf_ofChars, List.append_nil]

/-! ### Symbols and literals -/

/-- A symbol of one character; `@` must not be followed by `~`. -/
theorem kindsOf_symbol {c : Char} {s : Symbol} (hc : Symbol.ofChar? c = some s) {rest : List Char}
    (htilde : c = '@' → rest.head? ≠ some '~') :
    kindsOf (c :: rest) = .symbol s :: kindsOf rest := by
  refine kindsOf_lexeme c [] rest (.symbol s) ?_
  have hhead : c = '@' → (Text.ofChars rest).head? ≠ some (.char '~') := by
    intro e h
    refine htilde e ?_
    cases rest with
    | nil => cases h
    | cons d rest =>
      have hd : Glyph.char d = .char '~' := Option.some.inj h
      rw [Glyph.char.inj hd]
      rfl
  unfold Symbol.ofChar? at hc
  -- Only `@` needs to look at what follows it.
  split at hc <;> cases hc <;> try rfl
  simp [classify, isBlank, isNameStart, isDigit, hhead rfl, Symbol.ofChar?]

theorem kindsOf_atTilde (rest : List Char) :
    kindsOf ('@' :: '~' :: rest) = .symbol .atTilde :: kindsOf rest :=
  kindsOf_lexeme '@' ['~'] rest (.symbol .atTilde) rfl

theorem kindsOf_character {c : Char} (hc : isLineEnd c = false) (rest : List Char) :
    kindsOf ('\'' :: c :: '\'' :: rest) = .character c :: kindsOf rest := by
  refine kindsOf_lexeme '\'' [c, '\''] rest .character ?_
  show characterTail (.char c :: .char '\'' :: Text.ofChars rest) = _
  simp [characterTail, hc]

theorem stringTail_escape (cs : List Char) (rest : Text) (hcs : ∀ c ∈ cs, isLineEnd c = false) :
    stringTail false (Text.ofChars (escape cs) ++ .char '\"' :: rest) =
      (.string, (escape cs).length + 1) := by
  -- Each character comes back as one step of the tail, an escaped one as two.
  induction cs with
  | nil => rfl
  | cons c cs ih =>
    have hc := hcs c List.mem_cons_self
    have ih' := ih fun d hd => hcs d (List.mem_cons_of_mem _ hd)
    rw [escape]
    split
    · -- The backslash is read first, then the character it escapes.
      show stringTail false (.char '\\' :: .char c :: (Text.ofChars (escape cs) ++ .char '\"' :: rest))
        = _
      rw [stringTail, stringTail]
      simp [hc, ih', show isLineEnd '\\' = false from rfl]
    · rename_i hplain
      obtain ⟨hback, hquote⟩ := not_or.mp hplain
      have hescape : (c == '\\') = false := beq_eq_false_iff_ne.mpr hback
      show stringTail false (.char c :: (Text.ofChars (escape cs) ++ .char '\"' :: rest)) = _
      rw [stringTail]
      simp [hc, hescape, hquote, ih']

/-- A literal ends at the quote behind what was escaped, whatever follows it. -/
theorem classify_escape {cs : List Char} (hcs : ∀ c ∈ cs, isLineEnd c = false) (rest : Text) :
    classify (.char '\"') (Text.ofChars (escape cs ++ ['\"']) ++ rest) =
      (.string, (escape cs ++ ['\"']).length) := by
  have hsplit : Text.ofChars (escape cs ++ ['\"']) ++ rest =
      Text.ofChars (escape cs) ++ .char '\"' :: rest := by
    simp [Text.ofChars]
  rw [hsplit, List.length_append]
  exact stringTail_escape cs rest hcs

/-- What a literal means that stands for `contents`. -/
theorem ofLexeme?_escape (contents : String) :
    Kind.ofLexeme? ⟨.string, Text.ofChars ('\"' :: (escape contents.toList ++ ['\"']))⟩ =
      some (.string contents) := by
  simp only [Kind.ofLexeme?, charsOf_ofChars, List.tail_cons, List.dropLast_concat,
    unescape_escape, String.ofList_toList]

theorem kindsOf_string {contents : String} (h : (Kind.string contents).Spellable)
    (rest : List Char) :
    kindsOf ('\"' :: (escape contents.toList ++ '\"' :: rest)) =
      .string contents :: kindsOf rest := by
  have hclass := classify_escape h (Text.ofChars rest)
  rw [← Text.ofChars_append] at hclass
  have hread := kindsOf_lexeme '\"' (escape contents.toList ++ ['\"']) rest .string hclass
  rw [ofLexeme?_escape, List.append_assoc] at hread
  exact hread

end Keyplan.Token
