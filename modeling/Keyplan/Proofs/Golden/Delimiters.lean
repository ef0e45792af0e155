import Mathlib.Data.List.TakeWhile
import Keyplan.Golden.Case
import Keyplan.Proofs.Text

/-!
# Delimiters — lines that are delimiters, and texts that have none

A delimiter line is blanks, three or more dashes, blanks, a word and blanks. No line with a quote is
one. A line that starts, behind its blanks, with anything but two dashes cannot be made one by what
is written behind it: texts are put together from such lines.
-/

namespace Keyplan.Golden

open Text (lineFeed carriageReturn ofChars allLines dropReturn)

/-! ## 1. The pattern -/

def dash : Glyph := .char '-'

/-- A line that matches the pattern of delimiters, and the word in it. -/
inductive IsDelimiter : Text → String → Prop
  | intro {before middle after : Text} {n : Nat} {word : List Char}
    (hbefore : ∀ g ∈ before, isDelimiterBlank g) (hn : 3 ≤ n)
    (hmiddle : ∀ g ∈ middle, isDelimiterBlank g) (hword : ∀ c ∈ word, c.isLower)
    (hafter : ∀ g ∈ after, isDelimiterBlank g) :
    IsDelimiter (before ++ (List.replicate n dash ++ (middle ++ (ofChars word ++ after))))
      (String.ofList word)

theorem isDelimiterBlank_of_isLower {c : Char} (h : c.isLower) :
    isDelimiterBlank (.char c) = false := by
  rw [Bool.eq_false_iff]
  intro hblank
  have hmem : c ∈ [' ', '\t', '\n', '\x0c', '\r'] := by
    simpa [isDelimiterBlank] using hblank
  simp only [List.mem_cons, List.not_mem_nil, or_false] at hmem
  rcases hmem with rfl | rfl | rfl | rfl | rfl <;> revert h <;> decide

theorem isSome_letter?_of_blank {g : Glyph} (h : isDelimiterBlank g) :
    (letter? g).isSome = false := by
  cases g with
  | stray b => rfl
  | char c =>
    by_cases hc : c.isLower
    · rw [isDelimiterBlank_of_isLower hc] at h
      cases h
    · simp [letter?, hc]

theorem eq_ofChars_of_letters {w : Text} (h : ∀ g ∈ w, (letter? g).isSome) :
    w = ofChars (w.filterMap letter?) ∧ ∀ c ∈ w.filterMap letter?, c.isLower := by
  induction w with
  | nil => exact ⟨rfl, by simp⟩
  | cons g w ih =>
    obtain ⟨hg, hw⟩ := List.forall_mem_cons.mp h
    obtain ⟨hchars, hlower⟩ := ih hw
    cases g with
    | stray b => cases hg
    | char c =>
      have hc : c.isLower := by
        by_cases hc : c.isLower
        · exact hc
        · simp [letter?, hc] at hg
      have hletter : letter? (.char c) = some c := by simp [letter?, hc]
      rw [List.filterMap_cons_some hletter]
      refine ⟨?_, List.forall_mem_cons.mpr ⟨hc, hlower⟩⟩
      show _ = Glyph.char c :: ofChars _
      rw [← hchars]

theorem filterMap_letter?_ofChars {word : List Char} (h : ∀ c ∈ word, c.isLower) :
    (ofChars word).filterMap letter? = word := by
  induction word with
  | nil => rfl
  | cons c word ih =>
    obtain ⟨hc, hword⟩ := List.forall_mem_cons.mp h
    have hletter : letter? (.char c) = some c := by simp [letter?, hc]
    show (Glyph.char c :: ofChars word).filterMap letter? = _
    rw [List.filterMap_cons_some hletter, ih hword]

section Runs

variable {p : Glyph → Bool} {front rest : Text}

/-- A run that goes on to the first glyph without a property. -/
theorem takeWhile_run (hfront : ∀ g ∈ front, p g) (hrest : ∀ g ∈ rest.head?, p g = false) :
    (front ++ rest).takeWhile p = front := by
  rw [List.takeWhile_append_of_pos hfront]
  cases rest with
  | nil => simp
  | cons g rest => simp [hrest g rfl]

theorem dropWhile_run (hfront : ∀ g ∈ front, p g) (hrest : ∀ g ∈ rest.head?, p g = false) :
    (front ++ rest).dropWhile p = rest := by
  rw [List.dropWhile_append_of_pos hfront]
  cases rest with
  | nil => rfl
  | cons g rest => simp [hrest g rfl]

end Runs

theorem IsDelimiter.of_delimiterKind? {line : Text} {kind : String}
    (h : delimiterKind? line = some kind) : IsDelimiter line kind := by
  unfold delimiterKind? at h
  dsimp only at h
  split at h
  · rename_i hdelim
    obtain rfl := Option.some.inj h
    generalize hstart : line.dropWhile isDelimiterBlank = start at hdelim ⊢
    generalize hdashes : start.takeWhile (fun g => g == .char '-') = dashes at hdelim
    generalize hback : start.dropWhile (fun g => g == .char '-') = back at hdelim ⊢
    generalize hbehind : back.dropWhile isDelimiterBlank = behind at hdelim ⊢
    generalize hword : behind.takeWhile (fun g => (letter? g).isSome) = word at hdelim ⊢
    obtain ⟨hn, hrest⟩ := hdelim
    -- The line is put together again from the runs it was taken apart into.
    have hletters : ∀ g ∈ word, (letter? g).isSome := by
      intro g hg
      rw [← hword] at hg
      exact List.mem_takeWhile_imp (p := fun g => (letter? g).isSome) hg
    obtain ⟨hchars, hlower⟩ := eq_ofChars_of_letters hletters
    have hreplicate : dashes = List.replicate dashes.length dash := by
      refine List.eq_replicate_of_mem fun g hg => ?_
      rw [← hdashes] at hg
      exact eq_of_beq (List.mem_takeWhile_imp (p := fun g => g == dash) hg)
    have hdelim := IsDelimiter.intro
      (fun g (hg : g ∈ line.takeWhile isDelimiterBlank) => List.mem_takeWhile_imp hg) hn
      (fun g (hg : g ∈ back.takeWhile isDelimiterBlank) => List.mem_takeWhile_imp hg) hlower
      (List.dropWhile_eq_nil_iff.mp hrest)
    have hfront : word ++ behind.drop word.length = behind := by
      rw [← hword]
      exact (List.prefix_iff_eq_append.mp (List.takeWhile_prefix _))
    rw [← hchars, ← hreplicate, hfront, ← hbehind, List.takeWhile_append_dropWhile, ← hdashes,
      ← hback, List.takeWhile_append_dropWhile, ← hstart, List.takeWhile_append_dropWhile] at hdelim
    exact hdelim
  · cases h

theorem IsDelimiter.delimiterKind?_eq {line : Text} {kind : String} (h : IsDelimiter line kind) :
    delimiterKind? line = some kind := by
  obtain ⟨hbefore, hn, hmiddle, hword, hafter⟩ := h
  rename_i before middle after n word
  have hletters : ∀ g ∈ ofChars word, (letter? g).isSome := by
    intro g hg
    obtain ⟨c, hc, rfl⟩ := List.mem_map.mp hg
    simp [letter?, hword c hc]
  -- Each run is dropped or taken as a whole, as the next one starts with something else.
  have hback : ∀ g ∈ (middle ++ (ofChars word ++ after)).head?, (g == .char '-') = false := by
    intro g hg
    have hdash : isDelimiterBlank (.char '-') = false := by decide
    rw [beq_eq_false_iff_ne]
    rintro rfl
    rcases List.mem_append.mp (List.mem_of_head? hg) with hg | hg
    · rw [hmiddle _ hg] at hdash
      cases hdash
    rcases List.mem_append.mp hg with hg | hg
    · cases hletters _ hg
    · rw [hafter _ hg] at hdash
      cases hdash
  have hdashes : ∀ g ∈ List.replicate n dash, (g == .char '-') = true :=
    fun g hg => beq_iff_eq.mpr (List.eq_of_mem_replicate hg)
  have hstart : ∀ g ∈ (List.replicate n dash ++ (middle ++ (ofChars word ++ after))).head?,
      isDelimiterBlank g = false := by
    obtain ⟨k, rfl⟩ : ∃ k, n = k + 1 := ⟨n - 1, by omega⟩
    rintro g ⟨⟩
    decide
  have hfinal : after.dropWhile isDelimiterBlank = [] := List.dropWhile_eq_nil_iff.mpr hafter
  unfold delimiterKind?
  dsimp only
  rw [dropWhile_run hbefore hstart, takeWhile_run hdashes hback, dropWhile_run hdashes hback,
    List.length_replicate]
  cases word with
  | nil =>
    -- Without a word the blanks before and behind it are one run.
    have hnone : (middle ++ (ofChars [] ++ after)).dropWhile isDelimiterBlank = [] := by
      apply List.dropWhile_eq_nil_iff.mpr
      exact List.forall_mem_append.mpr ⟨hmiddle, hafter⟩
    rw [hnone]
    simp [hn]
  | cons c word =>
    have hc := isDelimiterBlank_of_isLower (hword c List.mem_cons_self)
    have hbehind : (middle ++ (ofChars (c :: word) ++ after)).dropWhile isDelimiterBlank =
        ofChars (c :: word) ++ after := by
      apply dropWhile_run hmiddle
      rintro g ⟨⟩
      exact hc
    have hstop : ∀ g ∈ after.head?, (letter? g).isSome = false :=
      fun g hg => isSome_letter?_of_blank (hafter g (List.mem_of_head? hg))
    rw [hbehind, takeWhile_run (p := fun g => (letter? g).isSome) hletters hstop, List.drop_left,
      if_pos ⟨hn, hfinal⟩, filterMap_letter?_ofChars hword]

theorem delimiterKind?_eq_some_iff {line : Text} {kind : String} :
    delimiterKind? line = some kind ↔ IsDelimiter line kind :=
  ⟨.of_delimiterKind?, IsDelimiter.delimiterKind?_eq⟩

/-- A carriage return at the end of a delimiter is one of its blanks. -/
theorem isDelimiter_concat_return {front : Text} {kind : String} :
    IsDelimiter (front ++ [carriageReturn]) kind ↔ IsDelimiter front kind := by
  constructor
  · intro h
    generalize hline : front ++ [carriageReturn] = line at h
    obtain ⟨hbefore, hn, hmiddle, hword, hafter⟩ := h
    rename_i before middle after n word
    -- The last glyph belongs to the last part that is not empty.
    rcases List.eq_nil_or_concat after with rfl | ⟨after, g, rfl⟩
    · rcases List.eq_nil_or_concat word with rfl | ⟨word, c, rfl⟩
      · rcases List.eq_nil_or_concat middle with rfl | ⟨middle, g, rfl⟩
        · obtain ⟨k, rfl⟩ : ∃ k, n = k + 1 := ⟨n - 1, by omega⟩
          have hlast := congrArg List.getLast? hline
          simp [List.replicate_succ', ofChars, carriageReturn, dash] at hlast
        · have hsplit : front ++ [carriageReturn] =
              before ++ (List.replicate n dash ++ middle) ++ [g] := by
            simpa [ofChars] using hline
          rw [(List.append_inj' hsplit rfl).1]
          have hfront : ∀ g ∈ middle, isDelimiterBlank g := by simp_all
          simpa [ofChars] using IsDelimiter.intro hbefore hn hfront hword hafter
      · have hlast := congrArg List.getLast? hline
        have hc : c = '\r' := by simpa [ofChars, carriageReturn, eq_comm] using hlast
        have hlower := hword c (by simp)
        rw [hc] at hlower
        exact absurd hlower (by decide)
    · have hsplit : front ++ [carriageReturn] =
          before ++ (List.replicate n dash ++ (middle ++ (ofChars word ++ after))) ++ [g] := by
        simpa using hline
      rw [(List.append_inj' hsplit rfl).1]
      have hfront : ∀ g ∈ after, isDelimiterBlank g := by simp_all
      exact IsDelimiter.intro hbefore hn hmiddle hword hfront
  · rintro ⟨hbefore, hn, hmiddle, hword, hafter⟩
    rename_i before middle after n word
    have hafter' : ∀ g ∈ after ++ [carriageReturn], isDelimiterBlank g :=
      List.forall_mem_append.mpr ⟨hafter, by decide⟩
    simpa using IsDelimiter.intro hbefore hn hmiddle hword hafter'

theorem delimiterKind?_dropReturn (line : Text) :
    delimiterKind? (dropReturn line) = delimiterKind? line := by
  unfold dropReturn
  split
  · rename_i hlast
    obtain ⟨front, rfl⟩ := List.getLast?_eq_some_iff.mp hlast
    rw [List.dropLast_concat]
    ext kind
    rw [delimiterKind?_eq_some_iff, delimiterKind?_eq_some_iff, isDelimiter_concat_return]
  · rfl

/-! ## 2. Lines with quotes -/

theorem IsDelimiter.dash_mem {line : Text} {kind : String} (h : IsDelimiter line kind) :
    dash ∈ line := by
  obtain ⟨-, hn, -, -, -⟩ := h
  rename_i n word
  have hdash : dash ∈ List.replicate n dash := List.mem_replicate.mpr ⟨by omega, rfl⟩
  exact List.mem_append_right _ (List.mem_append_left _ hdash)

/-- Everything in a delimiter is a blank, a dash or a letter. -/
theorem IsDelimiter.not_mem {line : Text} {kind : String} (h : IsDelimiter line kind) {c : Char}
    (hblank : isDelimiterBlank (.char c) = false) (hdash : c ≠ '-') (hlower : c.isLower = false) :
    Glyph.char c ∉ line := by
  obtain ⟨hbefore, hn, hmiddle, hword, hafter⟩ := h
  have hnot : ∀ t : Text, (∀ g ∈ t, isDelimiterBlank g) → Glyph.char c ∉ t := by
    intro t ht hmem
    rw [ht _ hmem] at hblank
    cases hblank
  simp only [List.mem_append, not_or]
  refine ⟨hnot _ hbefore, ?_, hnot _ hmiddle, ?_, hnot _ hafter⟩
  · intro hmem
    exact hdash (Glyph.char.inj (List.eq_of_mem_replicate hmem))
  · intro hmem
    obtain ⟨d, hd, heq⟩ := List.mem_map.mp hmem
    obtain rfl := Glyph.char.inj heq
    rw [hword d hd] at hlower
    cases hlower

/-- A line in which a dash does not stand without a quote. -/
def DashQuoted (line : Text) : Prop :=
  dash ∈ line → Glyph.char '\'' ∈ line ∨ Glyph.char '\"' ∈ line

theorem DashQuoted.append {l l' : Text} (h : DashQuoted l) (h' : DashQuoted l') :
    DashQuoted (l ++ l') := by
  intro hdash
  rcases List.mem_append.mp hdash with hdash | hdash
  · exact (h hdash).imp (List.mem_append_left _) (List.mem_append_left _)
  · exact (h' hdash).imp (List.mem_append_right _) (List.mem_append_right _)

theorem DashQuoted.delimiterKind?_eq {line : Text} (h : DashQuoted line) :
    delimiterKind? line = none := by
  cases hkind : delimiterKind? line with
  | none => rfl
  | some kind =>
    have hdelim := delimiterKind?_eq_some_iff.mp hkind
    rcases h hdelim.dash_mem with hquote | hquote
    · exact absurd hquote (hdelim.not_mem (by decide) (by decide) (by decide))
    · exact absurd hquote (hdelim.not_mem (by decide) (by decide) (by decide))

/-! ## 3. Lines that cannot become delimiters -/

/-- A line that starts, behind its blanks, with something else than two dashes. Whatever follows, it
is no delimiter. -/
def isSettled (line : Text) : Bool :=
  match line.dropWhile isDelimiterBlank with
  | [] => false
  | g :: rest => g != dash || rest.head?.any (· != dash)

theorem isSettled_append {l : Text} (h : isSettled l) (l' : Text) : isSettled (l ++ l') := by
  unfold isSettled at h ⊢
  rw [List.dropWhile_append]
  cases hl : l.dropWhile isDelimiterBlank with
  | nil =>
    rw [hl] at h
    cases h
  | cons g rest =>
    rw [hl] at h
    cases rest with
    | nil =>
      simp only [List.head?_nil, Option.any_none, Bool.or_false] at h
      simp [h]
    | cons g' rest => exact h

theorem isSettled_blanks_append {l : Text} (h : l.all isDelimiterBlank) (l' : Text) :
    isSettled (l ++ l') = isSettled l' := by
  unfold isSettled
  rw [List.dropWhile_append_of_pos (List.all_eq_true.mp h)]

/-- A line that is blank or cannot become a delimiter. -/
def Harmless (line : Text) : Prop :=
  line.all isDelimiterBlank ∨ isSettled line

theorem Harmless.append {l l' : Text} (h : Harmless l) (h' : Harmless l') :
    Harmless (l ++ l') := by
  rcases h with hblank | hsettled
  · rcases h' with hblank' | hsettled'
    · exact .inl (by rw [List.all_append, hblank, hblank']; rfl)
    · exact .inr ((isSettled_blanks_append hblank l').trans hsettled')
  · exact .inr (isSettled_append hsettled l')

theorem Harmless.delimiterKind?_eq {line : Text} (h : Harmless line) :
    delimiterKind? line = none := by
  have hshort : ((line.dropWhile isDelimiterBlank).takeWhile fun g => g == dash).length < 3 := by
    rcases h with hblank | hsettled
    · rw [List.dropWhile_eq_nil_iff.mpr (List.all_eq_true.mp hblank)]
      decide
    · unfold isSettled at hsettled
      cases hl : line.dropWhile isDelimiterBlank with
      | nil => decide
      | cons g rest =>
        rw [hl] at hsettled
        by_cases hg : g = dash
        · cases rest with
          | nil => simp [hg] at hsettled
          | cons g' rest =>
            have hg' : g' ≠ dash := by simpa [hg] using hsettled
            simp [hg, hg']
        · simp [hg]
  unfold delimiterKind?
  dsimp only
  rw [if_neg]
  intro hdelim
  exact absurd hdelim.1 (Nat.not_le.mpr hshort)

/-! ## 4. Texts without delimiters -/

/-- A text without carriage returns, all of whose lines are harmless. -/
def Tame (t : Text) : Prop :=
  carriageReturn ∉ t ∧ ∀ l ∈ allLines t, Harmless l

/-- A tame text on whose last line anything can be written. -/
def Open (t : Text) : Prop :=
  Tame t ∧ isSettled t.lastLine

instance (t : Text) : Decidable (Tame t) :=
  inferInstanceAs (Decidable (_ ∧ ∀ l ∈ allLines t, l.all isDelimiterBlank = true ∨ _))

instance (t : Text) : Decidable (Open t) :=
  inferInstanceAs (Decidable (_ ∧ _))

def OneLine (t : Text) : Prop :=
  lineFeed ∉ t ∧ carriageReturn ∉ t

def InLine (cs : List Char) : Prop :=
  ∀ c ∈ cs, Lexeme.isLineEnd c = false

instance (cs : List Char) : Decidable (InLine cs) :=
  List.decidableBAll _ cs

@[simp] theorem inLine_nil : InLine [] :=
  fun _ hc => nomatch hc

@[simp] theorem inLine_cons {c : Char} {cs : List Char} :
    InLine (c :: cs) ↔ Lexeme.isLineEnd c = false ∧ InLine cs :=
  List.forall_mem_cons

@[simp] theorem inLine_append {cs ds : List Char} : InLine (cs ++ ds) ↔ InLine cs ∧ InLine ds :=
  List.forall_mem_append

theorem InLine.oneLine {cs : List Char} (h : InLine cs) : OneLine (ofChars cs) := by
  have hnot : ∀ d, Lexeme.isLineEnd d = true → Glyph.char d ∉ ofChars cs := by
    intro d hd hmem
    obtain ⟨c, hc, heq⟩ := List.mem_map.mp hmem
    rw [← Glyph.char.inj heq, h c hc] at hd
    cases hd
  exact ⟨hnot '\n' rfl, hnot '\r' rfl⟩

section Writing

variable {t u : Text}

theorem Tame.append (ht : Tame t) (hu : Tame u) : Tame (t ++ u) := by
  refine ⟨?_, Text.forall_allLines_append (fun _ _ => Harmless.append) ht.2 hu.2⟩
  simp [ht.1, hu.1]

theorem Open.tame (h : Open t) : Tame t :=
  h.1

theorem Tame.harmless_lastLine (h : Tame t) : Harmless t.lastLine := by
  obtain ⟨init, hinit, -⟩ := Text.allLines_append t []
  apply h.2
  rw [hinit]
  exact List.mem_append_right _ List.mem_cons_self

/-- What is open can be written behind anything tame. -/
theorem Tame.append_open (ht : Tame t) (hu : Open u) : Open (t ++ u) := by
  refine ⟨ht.append hu.tame, ?_⟩
  rcases u.eq_lastLine_or with hline | ⟨front, hline⟩
  · have hnone : lineFeed ∉ u := hline ▸ u.lineFeed_not_mem_lastLine
    have hsettled : isSettled u := by
      have h := hu.2
      rwa [← hline] at h
    rw [Text.lastLine_append hnone]
    rcases ht.harmless_lastLine with hblank | hlast
    · rwa [isSettled_blanks_append hblank]
    · exact isSettled_append hlast u
  · have hlast : (t ++ u).lastLine = u.lastLine := by
      have hnone := u.lineFeed_not_mem_lastLine
      generalize u.lastLine = w at hline hnone
      rw [hline, ← List.append_assoc, Text.lastLine_behind_lineFeed hnone]
    rw [hlast]
    exact hu.2

theorem Open.append_line (ht : Open t) (hu : OneLine u) : Open (t ++ u) := by
  have hsettled : isSettled (t.lastLine ++ u) := isSettled_append ht.2 u
  refine ⟨⟨by simp [ht.1.1, hu.2], ?_⟩, by rwa [Text.lastLine_append hu.1 t]⟩
  -- Only the last line is new.
  obtain ⟨init, hinit, happend⟩ := Text.allLines_append t u
  have hfirst : u.firstLine = u := by
    simpa [Text.firstLine] using Text.firstLine_append hu.1 []
  rw [happend, hfirst, Text.allLines_of_line hu.1]
  refine List.forall_mem_append.mpr ⟨fun l hl => ?_, List.forall_mem_singleton.mpr (.inr hsettled)⟩
  apply ht.1.2
  rw [hinit]
  exact List.mem_append_left _ hl

/-- A text that can be written behind what is open, and leaves it open. -/
def Continues (u : Text) : Prop :=
  ∀ t, Open t → Open (t ++ u)

theorem OneLine.continues (hu : OneLine u) : Continues u :=
  fun _ ht => ht.append_line hu

theorem Open.continues (hu : Open u) : Continues u :=
  fun _ ht => ht.tame.append_open hu

theorem Continues.append {v : Text} (hu : Continues u) (hv : Continues v) : Continues (u ++ v) := by
  intro t ht
  rw [← List.append_assoc]
  exact hv _ (hu t ht)

theorem continues_flatten {us : List Text} (h : ∀ u ∈ us, Continues u) : Continues us.flatten := by
  induction us with
  | nil =>
    intro t ht
    rwa [List.flatten_nil, List.append_nil]
  | cons u us ih =>
    obtain ⟨hu, hus⟩ := List.forall_mem_cons.mp h
    exact hu.append (ih hus)

theorem tame_flatten {us : List Text} (h : ∀ u ∈ us, Tame u) : Tame us.flatten := by
  induction us with
  | nil => decide
  | cons u us ih =>
    obtain ⟨hu, hus⟩ := List.forall_mem_cons.mp h
    exact hu.append (ih hus)

theorem Tame.delimiterKind?_eq (h : Tame t) : ∀ l ∈ allLines t, delimiterKind? l = none :=
  fun l hl => (h.2 l hl).delimiterKind?_eq

end Writing

end Keyplan.Golden
