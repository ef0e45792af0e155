import Mathlib.Computability.Language
import Keyplan.Proofs.Token.Spelling

/-!
# Patterns — what each class of lexemes looks like

Every class of lexemes has a pattern, a language of characters. What `classify` finds at the front
of a text matches the pattern of its class, and no pattern matches more of that text. Where it
finds an invalid lexeme, no pattern matches at all.
-/

namespace Keyplan

open scoped Computability
open Lexeme

/-! ## 1. Patterns -/

namespace Pattern

/-- One character of a class. -/
def one (p : Char → Bool) : Language Char :=
  fun w => ∃ c, p c ∧ w = [c]

/-- These characters and no others. -/
def exactly (cs : List Char) : Language Char :=
  fun w => w = cs

/-- What a string literal is made of between its quotes: characters that stand for themselves, and
characters behind a backslash. Neither can be a line end. -/
def inside : Language Char :=
  one (fun c => !isLineEnd c && c != '\"' && c != '\\') +
    exactly ['\\'] * one (fun c => !isLineEnd c)

end Pattern

open Pattern in
/-- What the lexemes of a class look like. No pattern describes the invalid ones. -/
def LexClass.pattern : LexClass → Language Char
  | blank => one isBlank * (one isBlank)∗
  | newline => exactly ['\n'] + exactly ['\r'] + exactly ['\r', '\n']
  | identifier => one isNameStart * (one isNamePart)∗
  | keyCount => one isDigit * (one isDigit)∗ * exactly ['k']
  | spaceCount => one isDigit * (one isDigit)∗ * exactly ['s']
  | integer => one isDigit * (one isDigit)∗
  | character => exactly ['\''] * one (fun c => !isLineEnd c) * exactly ['\'']
  | string => exactly ['\"'] * inside∗ * exactly ['\"']
  | symbol s => exactly s.text.toList
  | invalid => 0

/-- The classes in order: of two whose patterns match the same text, the first one counts. -/
def LexClass.all : List LexClass :=
  [.blank, .newline, .identifier, .keyCount, .spaceCount, .integer, .character, .string,
    .symbol .openBrace, .symbol .closeBrace, .symbol .openBracket, .symbol .closeBracket,
    .symbol .semicolon, .symbol .colon, .symbol .atSign, .symbol .atTilde, .symbol .chordOpen,
    .symbol .chordClose]

/-! ## 2. The words of a pattern -/

namespace Pattern

theorem mem_one_mul {p : Char → Bool} {l : Language Char} {w : List Char} :
    w ∈ one p * l ↔ ∃ c cs, p c ∧ cs ∈ l ∧ w = c :: cs := by
  rw [Language.mem_mul]
  constructor
  · rintro ⟨-, ⟨c, hc, rfl⟩, cs, hcs, rfl⟩
    exact ⟨c, cs, hc, hcs, rfl⟩
  · rintro ⟨c, cs, hc, hcs, rfl⟩
    exact ⟨[c], ⟨c, hc, rfl⟩, cs, hcs, rfl⟩

theorem mem_exactly_mul {cs w : List Char} {l : Language Char} :
    w ∈ exactly cs * l ↔ ∃ ds ∈ l, w = cs ++ ds := by
  rw [Language.mem_mul]
  constructor
  · rintro ⟨-, rfl, ds, hds, rfl⟩
    exact ⟨ds, hds, rfl⟩
  · rintro ⟨ds, hds, rfl⟩
    exact ⟨cs, rfl, ds, hds, rfl⟩

theorem mem_mul_exactly {cs w : List Char} {l : Language Char} :
    w ∈ l * exactly cs ↔ ∃ ds ∈ l, w = ds ++ cs := by
  rw [Language.mem_mul]
  constructor
  · rintro ⟨ds, hds, -, rfl, rfl⟩
    exact ⟨ds, hds, rfl⟩
  · rintro ⟨ds, hds, rfl⟩
    exact ⟨ds, hds, cs, rfl, rfl⟩

theorem mem_kstar_one {p : Char → Bool} {w : List Char} : w ∈ (one p)∗ ↔ ∀ c ∈ w, p c := by
  rw [Language.mem_kstar]
  constructor
  · rintro ⟨ws, rfl, hws⟩ c hc
    obtain ⟨v, hv, hcv⟩ := List.mem_flatten.mp hc
    obtain ⟨d, hd, rfl⟩ := hws v hv
    rwa [List.mem_singleton.mp hcv]
  · intro hw
    refine ⟨w.map fun c => [c], w.flatMap_singleton'.symm, ?_⟩
    intro v hv
    obtain ⟨c, hc, rfl⟩ := List.mem_map.mp hv
    exact ⟨c, hw c hc, rfl⟩

/-- A character of one class, and a run of characters of another one behind it. -/
theorem mem_run {p q : Char → Bool} {w : List Char} :
    w ∈ one p * (one q)∗ ↔ ∃ c cs, p c ∧ (∀ d ∈ cs, q d) ∧ w = c :: cs := by
  simp only [mem_one_mul, mem_kstar_one]

theorem mem_inside {w : List Char} (h : w ∈ inside) :
    (∃ c, isLineEnd c = false ∧ c ≠ '\"' ∧ c ≠ '\\' ∧ w = [c]) ∨
      ∃ c, isLineEnd c = false ∧ w = ['\\', c] := by
  rcases h with ⟨c, hc, rfl⟩ | h
  · simp only [Bool.and_eq_true, Bool.not_eq_true', bne_iff_ne] at hc
    exact .inl ⟨c, hc.1.1, hc.1.2, hc.2, rfl⟩
  · obtain ⟨_, ⟨c, hc, rfl⟩, rfl⟩ := mem_exactly_mul.mp h
    exact .inr ⟨c, by simpa using hc, rfl⟩

theorem mem_string {w : List Char} :
    w ∈ LexClass.string.pattern ↔ ∃ body ∈ inside∗, w = '\"' :: body ++ ['\"'] := by
  constructor
  · intro h
    obtain ⟨_, hopen, rfl⟩ := mem_mul_exactly.mp h
    obtain ⟨body, hbody, rfl⟩ := mem_exactly_mul.mp hopen
    exact ⟨body, hbody, rfl⟩
  · rintro ⟨body, hbody, rfl⟩
    exact mem_mul_exactly.mpr ⟨_, mem_exactly_mul.mpr ⟨body, hbody, rfl⟩, rfl⟩

theorem mem_character {w : List Char} :
    w ∈ LexClass.character.pattern ↔ ∃ c, isLineEnd c = false ∧ w = ['\'', c, '\''] := by
  constructor
  · intro h
    obtain ⟨_, hopen, rfl⟩ := mem_mul_exactly.mp h
    obtain ⟨_, ⟨c, hc, rfl⟩, rfl⟩ := mem_exactly_mul.mp hopen
    exact ⟨c, by simpa using hc, rfl⟩
  · rintro ⟨c, hc, rfl⟩
    exact mem_mul_exactly.mpr
      ⟨['\'', c], mem_exactly_mul.mpr ⟨[c], ⟨c, by simpa using hc, rfl⟩, rfl⟩, rfl⟩

theorem append_mem_kstar {l : Language Char} {v w : List Char} (hv : v ∈ l) (hw : w ∈ l∗) :
    v ++ w ∈ l∗ := by
  obtain ⟨ws, rfl, hws⟩ := Language.mem_kstar.mp hw
  refine Language.mem_kstar.mpr ⟨v :: ws, rfl, ?_⟩
  intro u hu
  rcases List.mem_cons.mp hu with rfl | hu
  · exact hv
  · exact hws u hu

end Pattern

/-! ## 3. What is found matches -/

namespace Lexeme

open Pattern

theorem exists_chars_run (p : Char → Bool) (t : Text) :
    ∃ cs, t.take (runLength p t) = Text.ofChars cs ∧ ∀ c ∈ cs, p c := by
  have hrun : t.take (runLength p t) = t.takeWhile (isChar p) :=
    (List.prefix_iff_eq_take.mp (List.takeWhile_prefix _)).symm
  rw [hrun]
  induction t with
  | nil => exact ⟨[], rfl, by simp⟩
  | cons g t ih =>
    rw [List.takeWhile_cons]
    by_cases hg : isChar p g
    · obtain ⟨cs, hcs, hp⟩ := ih (List.prefix_iff_eq_take.mp (List.takeWhile_prefix _)).symm
      cases g with
      | char c => exact ⟨c :: cs, by rw [if_pos hg, hcs]; rfl, List.forall_mem_cons.mpr ⟨hg, hp⟩⟩
      | stray b => cases hg
    · exact ⟨[], by rw [if_neg hg]; rfl, by simp⟩

/-- A string literal that is closed. Behind a backslash the first character belongs to it. -/
theorem inside_of_stringTail {escaped : Bool} {t : Text} (h : (stringTail escaped t).1 = .string) :
    ∃ body, (if escaped then '\\' :: body else body) ∈ inside∗ ∧
      t.take (stringTail escaped t).2 = Text.ofChars (body ++ ['\"']) := by
  fun_induction stringTail escaped t with
  | case1 => cases h
  | case2 escaped c rest hc hquote =>
    simp only [Bool.and_eq_true, Bool.not_eq_true', beq_iff_eq] at hquote
    obtain ⟨rfl, rfl⟩ := hquote
    exact ⟨[], Language.nil_mem_kstar _, rfl⟩
  | case3 escaped c rest hc hquote kind n hrest ih =>
    rw [hrest] at ih
    obtain ⟨body, hbody, htake⟩ := ih h
    refine ⟨c :: body, ?_, by rw [List.take_succ_cons, htake]; rfl⟩
    have hend : (!isLineEnd c) = true := by simpa using hc
    cases escaped with
    | true =>
      have hpair : ['\\', c] ∈ inside := .inr (mem_exactly_mul.mpr ⟨[c], ⟨c, hend, rfl⟩, rfl⟩)
      exact append_mem_kstar hpair (by simpa using hbody)
    | false =>
      by_cases hslash : c = '\\'
      -- The backslash waits for the character behind it.
      · subst hslash
        exact hbody
      · have hplain : [c] ∈ inside := by
          refine .inl ⟨c, ?_, rfl⟩
          simp_all
        exact append_mem_kstar hplain (by simpa [hslash] using hbody)
  | case4 => cases h
  | case5 => cases h

/-- The number of digits behind the first one, and the class that the letter behind them gives. -/
theorem classify_digit {d : Char} (hd : isDigit d) (rest : Text) :
    classify (.char d) rest = match rest[runLength isDigit rest]? with
      | some (.char 'k') => (.keyCount, runLength isDigit rest + 1)
      | some (.char 's') => (.spaceCount, runLength isDigit rest + 1)
      | _ => (.integer, runLength isDigit rest) := by
  have hblank := Token.isBlank_of_class hd rfl rfl
  have hnl := Token.ne_of_class hd '\n' rfl
  have hcr := Token.ne_of_class hd '\r' rfl
  have hname := Token.isNameStart_of_digit hd
  exact (if_neg (by simp [hblank])).trans <| (if_neg hnl).trans <| (if_neg hcr).trans <|
    (if_neg (by simp [hname])).trans (if_pos hd)

/-- What was found at the front of a text is a word of its pattern, unless it is invalid. -/
def Fits (g : Glyph) (rest : Text) (found : LexClass × Nat) : Prop :=
  found.1 ≠ .invalid → ∃ cs ∈ found.1.pattern, g :: rest.take found.2 = Text.ofChars cs

theorem fits_run {k : LexClass} {p q : Char → Bool} (hk : k.pattern = one p * (one q)∗) {c : Char}
    (hc : p c) (rest : Text) : Fits (.char c) rest (k, runLength q rest) := by
  intro _
  obtain ⟨cs, hcs, hq⟩ := exists_chars_run q rest
  exact ⟨c :: cs, hk ▸ mem_run.mpr ⟨c, cs, hc, hq, rfl⟩, congrArg (Glyph.char c :: ·) hcs⟩

theorem fits_digits {d : Char} (hd : isDigit d) (rest : Text) :
    Fits (.char d) rest (classify (.char d) rest) := by
  obtain ⟨ds, hds, hdigits⟩ := exists_chars_run isDigit rest
  have hrun : d :: ds ∈ one isDigit * (one isDigit)∗ := mem_run.mpr ⟨d, ds, hd, hdigits, rfl⟩
  -- The letter behind the digits belongs to a count.
  have hletter : ∀ c, rest[runLength isDigit rest]? = some (.char c) →
      .char d :: rest.take (runLength isDigit rest + 1) = Text.ofChars (d :: ds ++ [c]) := by
    intro c hc
    rw [List.take_add_one, hc, hds]
    simp [Text.ofChars]
  rw [classify_digit hd]
  split
  · exact fun _ => ⟨_, mem_mul_exactly.mpr ⟨_, hrun, rfl⟩, hletter 'k' ‹_›⟩
  · exact fun _ => ⟨_, mem_mul_exactly.mpr ⟨_, hrun, rfl⟩, hletter 's' ‹_›⟩
  · exact fun _ => ⟨_, hrun, congrArg (Glyph.char d :: ·) hds⟩

theorem fits_characterTail (rest : Text) : Fits (.char '\'') rest (characterTail rest) := by
  intro hvalid
  have hclass : (characterTail rest).1 = .character :=
    (Token.characterTail_class rest).resolve_right hvalid
  obtain ⟨c, rest', rfl, hc, htwo⟩ := Token.characterTail_eq_character hclass
  rw [hclass, htwo]
  exact ⟨_, mem_character.mpr ⟨c, hc, rfl⟩, rfl⟩

theorem fits_stringTail (rest : Text) : Fits (.char '\"') rest (stringTail false rest) := by
  intro hvalid
  have hclass : (stringTail false rest).1 = .string :=
    (Token.stringTail_class false rest).resolve_right hvalid
  obtain ⟨body, hbody, htake⟩ := inside_of_stringTail hclass
  rw [hclass]
  exact ⟨_, mem_string.mpr ⟨body, hbody, rfl⟩, congrArg (Glyph.char '\"' :: ·) htake⟩

theorem fits_symbol {c : Char} {s : Symbol} (h : Symbol.ofChar? c = some s) (rest : Text) :
    Fits (.char c) rest (.symbol s, 0) := by
  intro _
  refine ⟨[c], ?_, rfl⟩
  unfold Symbol.ofChar? at h
  split at h <;> cases h <;> rfl

/-- What is found at the front of a text matches the pattern of its class. -/
theorem fits_classify (g : Glyph) (rest : Text) : Fits g rest (classify g rest) := by
  cases g with
  | stray b => exact fun hvalid => absurd rfl hvalid
  | char c =>
    by_cases hdigit : isDigit c
    · exact fits_digits hdigit rest
    unfold classify
    dsimp only
    -- One case for each of the other tests, in the order `classify` makes them.
    by_cases hblank : isBlank c
    · rw [if_pos hblank]
      exact fits_run rfl hblank rest
    rw [if_neg hblank]
    by_cases hfeed : c = '\n'
    · rw [if_pos hfeed, hfeed]
      exact fun _ => ⟨['\n'], .inl (.inl rfl), rfl⟩
    rw [if_neg hfeed]
    by_cases hreturn : c = '\r'
    · rw [if_pos hreturn, hreturn]
      by_cases hhead : rest.head? = some (.char '\n')
      · rw [if_pos hhead]
        refine fun _ => ⟨['\r', '\n'], .inr rfl, ?_⟩
        rw [List.take_one, hhead]
        rfl
      · rw [if_neg hhead]
        exact fun _ => ⟨['\r'], .inl (.inr rfl), rfl⟩
    rw [if_neg hreturn]
    by_cases hname : isNameStart c
    · rw [if_pos hname]
      exact fits_run rfl hname rest
    rw [if_neg hname, if_neg hdigit]
    by_cases hquote : c = '\''
    · rw [if_pos hquote, hquote]
      exact fits_characterTail rest
    rw [if_neg hquote]
    by_cases hstring : c = '\"'
    · rw [if_pos hstring, hstring]
      exact fits_stringTail rest
    rw [if_neg hstring]
    by_cases htilde : c = '@' ∧ rest.head? = some (.char '~')
    · rw [if_pos htilde, htilde.1]
      refine fun _ => ⟨['@', '~'], rfl, ?_⟩
      rw [List.take_one, htilde.2]
      rfl
    rw [if_neg htilde]
    cases hsymbol : Symbol.ofChar? c with
    | some s => exact fits_symbol hsymbol rest
    | none => exact fun hvalid => absurd rfl hvalid

/-! ## 4. No pattern matches more -/

/-- What was found is a lexeme of class `k` with `n` glyphs behind the first one, or a longer one of
any class. -/
def Outdoes (found : LexClass × Nat) (k : LexClass) (n : Nat) : Prop :=
  found = (k, n) ∨ n < found.2 ∧ found.1 ≠ .invalid

theorem runLength_ofChars_append {p : Char → Bool} {cs : List Char} (h : ∀ c ∈ cs, p c)
    (t : Text) : runLength p (Text.ofChars cs ++ t) = cs.length + runLength p t := by
  have hall : ∀ g ∈ Text.ofChars cs, isChar p g := by
    intro g hg
    obtain ⟨c, hc, rfl⟩ := List.mem_map.mp hg
    exact h c hc
  rw [runLength, List.takeWhile_append_of_pos hall, List.length_append, Text.ofChars,
    List.length_map]
  rfl

theorem outdoes_run {k : LexClass} (hk : k ≠ .invalid) {p : Char → Bool} {cs : List Char}
    (h : ∀ c ∈ cs, p c) (t : Text) :
    Outdoes (k, runLength p (Text.ofChars cs ++ t)) k cs.length := by
  rw [runLength_ofChars_append h]
  by_cases hmore : runLength p t = 0
  · exact .inl (by rw [hmore, Nat.add_zero])
  · exact .inr ⟨Nat.lt_add_of_pos_right (Nat.pos_of_ne_zero hmore), hk⟩

theorem ofChars_concat_append (cs : List Char) (c : Char) (t : Text) :
    Text.ofChars (cs ++ [c]) ++ t = Text.ofChars cs ++ .char c :: t := by
  simp [Text.ofChars]

/-- A run of digits ends at the first character that is none, and that one stands behind it. -/
theorem runLength_digits_concat {ds : List Char} (hds : ∀ d ∈ ds, isDigit d) {c : Char}
    (hc : isDigit c = false) (t : Text) :
    runLength isDigit (Text.ofChars (ds ++ [c]) ++ t) = ds.length ∧
      (Text.ofChars (ds ++ [c]) ++ t)[ds.length]? = some (.char c) := by
  have hstop : runLength isDigit (.char c :: t) = 0 := by simp [runLength, isChar, hc]
  rw [ofChars_concat_append, runLength_ofChars_append hds, hstop]
  exact ⟨rfl, by simp [Text.ofChars]⟩

theorem outdoes_integer {d : Char} (hd : isDigit d) {ds : List Char} (hds : ∀ d ∈ ds, isDigit d)
    (t : Text) : Outdoes (classify (.char d) (Text.ofChars ds ++ t)) .integer ds.length := by
  have hle : ds.length ≤ runLength isDigit (Text.ofChars ds ++ t) := by
    rw [runLength_ofChars_append hds]
    omega
  rw [classify_digit hd]
  split
  · exact .inr ⟨Nat.lt_succ_of_le hle, nofun⟩
  · exact .inr ⟨Nat.lt_succ_of_le hle, nofun⟩
  · exact outdoes_run (by simp) hds t

theorem stringTail_inside {body : List Char} (h : body ∈ inside∗) (t : Text) :
    stringTail false (Text.ofChars body ++ .char '\"' :: t) = (.string, body.length + 1) := by
  obtain ⟨ws, rfl, hws⟩ := Language.mem_kstar.mp h
  clear h
  induction ws with
  | nil => rfl
  | cons w ws ih =>
    have hrest := ih fun v hv => hws v (List.mem_cons_of_mem _ hv)
    -- A character takes one step, an escaped one two.
    rcases mem_inside (hws w List.mem_cons_self) with ⟨c, hc, hquote, hslash, rfl⟩ | ⟨c, hc, rfl⟩
    · have hplain : (c == '\\') = false := beq_eq_false_iff_ne.mpr hslash
      show stringTail false (.char c :: (Text.ofChars ws.flatten ++ .char '\"' :: t)) = _
      simp [stringTail, hc, hquote, hplain, hrest]
    · have hback : isLineEnd '\\' = false := rfl
      show stringTail false
        (.char '\\' :: .char c :: (Text.ofChars ws.flatten ++ .char '\"' :: t)) = _
      simp [stringTail, hc, hback, hrest]

theorem classify_carriageReturn (rest : Text) :
    classify (.char '\r') rest = (.newline, if rest.head? = some (.char '\n') then 1 else 0) := rfl

theorem outdoes_newline {cs : List Char} (h : cs ∈ LexClass.newline.pattern) (t : Text) :
    ∃ c ds, cs = c :: ds ∧
      Outdoes (classify (.char c) (Text.ofChars ds ++ t)) .newline ds.length := by
  rcases h with (rfl | rfl) | rfl
  · exact ⟨'\n', [], rfl, .inl rfl⟩
  · refine ⟨'\r', [], rfl, ?_⟩
    rw [classify_carriageReturn]
    split
    · exact .inr ⟨Nat.zero_lt_one, nofun⟩
    · exact .inl rfl
  · exact ⟨'\r', ['\n'], rfl, .inl rfl⟩

theorem outdoes_symbol (s : Symbol) {cs : List Char} (h : cs = s.text.toList) (t : Text) :
    ∃ c ds, cs = c :: ds ∧
      Outdoes (classify (.char c) (Text.ofChars ds ++ t)) (.symbol s) ds.length := by
  subst h
  by_cases hat : s = .atSign
  -- Only this symbol is the front of another one.
  · subst hat
    refine ⟨'@', [], rfl, ?_⟩
    by_cases htilde : t.head? = some (.char '~')
    · right
      simp [classify, isBlank, isNameStart, isDigit, Text.ofChars, htilde]
    · left
      simp [classify, isBlank, isNameStart, isDigit, Text.ofChars, htilde, Symbol.ofChar?]
  · cases s <;> first | exact absurd rfl hat | exact ⟨_, _, rfl, .inl rfl⟩

/-- A word that matches a pattern at the front of a text is found, or a longer one is. -/
theorem outdoes_match {k : LexClass} {cs : List Char} (h : cs ∈ k.pattern) (t : Text) :
    ∃ c ds, cs = c :: ds ∧ Outdoes (classify (.char c) (Text.ofChars ds ++ t)) k ds.length := by
  cases k with
  | blank =>
    obtain ⟨c, ds, hc, hds, rfl⟩ := mem_run.mp h
    refine ⟨c, ds, rfl, ?_⟩
    rw [classify]
    simp only [hc, if_true]
    exact outdoes_run (by simp) hds t
  | newline => exact outdoes_newline h t
  | identifier =>
    obtain ⟨c, ds, hc, hds, rfl⟩ := mem_run.mp h
    refine ⟨c, ds, rfl, ?_⟩
    rw [Token.classify_nameStart hc]
    exact outdoes_run (by simp) hds t
  | keyCount =>
    obtain ⟨_, hrun, rfl⟩ := mem_mul_exactly.mp h
    obtain ⟨d, ds, hd, hds, rfl⟩ := mem_run.mp hrun
    refine ⟨d, ds ++ ['k'], rfl, .inl ?_⟩
    obtain ⟨hcount, hletter⟩ := runLength_digits_concat hds (c := 'k') rfl t
    rw [classify_digit hd, hcount, hletter, List.length_append]
    rfl
  | spaceCount =>
    obtain ⟨_, hrun, rfl⟩ := mem_mul_exactly.mp h
    obtain ⟨d, ds, hd, hds, rfl⟩ := mem_run.mp hrun
    refine ⟨d, ds ++ ['s'], rfl, .inl ?_⟩
    obtain ⟨hcount, hletter⟩ := runLength_digits_concat hds (c := 's') rfl t
    rw [classify_digit hd, hcount, hletter, List.length_append]
    rfl
  | integer =>
    obtain ⟨d, ds, hd, hds, rfl⟩ := mem_run.mp h
    exact ⟨d, ds, rfl, outdoes_integer hd hds t⟩
  | character =>
    obtain ⟨c, hc, rfl⟩ := mem_character.mp h
    refine ⟨'\'', [c, '\''], rfl, .inl ?_⟩
    show characterTail (.char c :: .char '\'' :: t) = _
    simp [characterTail, hc]
  | string =>
    obtain ⟨body, hbody, rfl⟩ := mem_string.mp h
    refine ⟨'\"', body ++ ['\"'], rfl, .inl ?_⟩
    rw [ofChars_concat_append, List.length_append]
    exact stringTail_inside hbody t
  | symbol s => exact outdoes_symbol s h t
  | invalid => cases h

/-! ## 5. No lexeme is longer than its text -/

theorem runLength_le (p : Char → Bool) (t : Text) : runLength p t ≤ t.length :=
  (List.takeWhile_prefix _).length_le

theorem one_le_length_of_head? {t : Text} {g : Glyph} (h : t.head? = some g) : 1 ≤ t.length :=
  List.length_pos_of_mem (List.mem_of_head? h)

theorem characterTail_le (t : Text) : (characterTail t).2 ≤ t.length := by
  unfold characterTail
  split
  · split
    · simp
    · split <;> simp
  · exact Nat.min_le_right _ _

theorem stringTail_le (escaped : Bool) (t : Text) : (stringTail escaped t).2 ≤ t.length := by
  fun_induction stringTail escaped t with
  | case1 => simp
  | case2 => simp
  | case3 escaped c rest _ _ kind n hrest ih =>
    rw [hrest] at ih
    exact Nat.succ_le_succ ih
  | case4 => exact Nat.le_refl 0
  | case5 => exact Nat.min_le_right _ _

theorem classify_le (g : Glyph) (rest : Text) : (classify g rest).2 ≤ rest.length := by
  unfold classify
  split
  · exact Nat.zero_le _
  · rename_i c
    split
    · exact runLength_le _ _
    split
    · exact Nat.zero_le _
    split
    · split
      · exact one_le_length_of_head? ‹_›
      · exact Nat.zero_le _
    split
    · exact runLength_le _ _
    split
    · have hletter : ∀ c, rest[runLength isDigit rest]? = some (.char c) →
          runLength isDigit rest + 1 ≤ rest.length := fun c hc =>
        (List.getElem?_eq_some_iff.mp hc).1
      dsimp only
      split
      · exact hletter _ ‹_›
      · exact hletter _ ‹_›
      · exact runLength_le _ _
    split
    · exact characterTail_le rest
    split
    · exact stringTail_le false rest
    split
    · rename_i htilde
      exact one_le_length_of_head? htilde.2
    split <;> exact Nat.zero_le _

end Lexeme

end Keyplan
