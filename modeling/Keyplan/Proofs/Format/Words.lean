import Keyplan.Format
import Keyplan.Proofs.Token.Spelling

/-!
# Words — lines of words with blanks between them

A line is read word by word, however many blanks stand between the words. Padding a word with
blanks and dropping the blanks at the end of a line change no word.
-/

namespace Keyplan.Format

open Lexeme Token

/-! ## Spelled kinds -/

/-- Characters that are read as the given kinds, whatever follows them, unless it goes on with a
name. -/
def Spells (cs : List Char) (ks : List Kind) : Prop :=
  ∀ rest, StopsAt isNamePart rest → kindsOf (cs ++ rest) = ks ++ kindsOf rest

theorem spells_nil : Spells [] [] :=
  fun _ _ => rfl

/-- Two pieces are read one after the other when the second does not go on with a name. -/
theorem Spells.append {cs ds : List Char} {ks ls : List Kind} (hcs : Spells cs ks)
    (hds : Spells ds ls) (hstop : StopsAt isNamePart ds) : Spells (cs ++ ds) (ks ++ ls) := by
  intro rest hrest
  have hstop' : StopsAt isNamePart (ds ++ rest) := by
    cases ds with
    | nil => exact hrest
    | cons d ds => exact hstop
  rw [List.append_assoc, hcs _ hstop', hds rest hrest, List.append_assoc]

/-- A symbol may stand in front of anything. -/
theorem Spells.symbol {c : Char} {s : Symbol} (hc : Symbol.ofChar? c = some s) (hat : c ≠ '@')
    {cs : List Char} {ks : List Kind} (hcs : Spells cs ks) :
    Spells (c :: cs) (.symbol s :: ks) := by
  intro rest hrest
  rw [List.cons_append, kindsOf_symbol hc fun e => absurd e hat, hcs rest hrest]
  rfl

theorem Spells.newline {cs : List Char} {ks : List Kind} (hcs : Spells cs ks) :
    Spells ('\n' :: cs) ks := by
  intro rest hrest
  rw [List.cons_append, kindsOf_newline, hcs rest hrest]

theorem Spells.gap {gap : List Char} (hgap : ∀ c ∈ gap, isBlank c) {cs : List Char}
    {ks : List Kind} (hcs : Spells cs ks) : Spells (gap ++ cs) ks := by
  intro rest hrest
  rw [List.append_assoc, kindsOf_gap hgap, hcs rest hrest]

theorem Spells.blanks (n : Nat) {cs : List Char} {ks : List Kind} (hcs : Spells cs ks) :
    Spells (List.replicate n ' ' ++ cs) ks :=
  hcs.gap fun _ hc => List.eq_of_mem_replicate hc ▸ rfl

theorem stopsAt_cons {c : Char} {cs : List Char} (hc : isNamePart c = false) :
    StopsAt isNamePart (c :: cs) :=
  fun _ hd => Option.some.inj hd ▸ hc

/-! ## Blanks at the end -/

/-- A line without the blanks at its end. -/
def trimmed (cs : List Char) : List Char :=
  (cs.reverse.dropWhile (· == ' ')).reverse

/-- Characters that do not end with a blank, and are not empty. -/
def EndsTight (w : List Char) : Prop :=
  ∃ v c, w = v ++ [c] ∧ c ≠ ' '

theorem EndsTight.append {w : List Char} (v : List Char) (hw : EndsTight w) :
    EndsTight (v ++ w) := by
  obtain ⟨u, c, rfl, hc⟩ := hw
  exact ⟨v ++ u, c, (List.append_assoc ..).symm, hc⟩

theorem EndsTight.ne_nil {w : List Char} (hw : EndsTight w) : w ≠ [] := by
  obtain ⟨u, c, rfl, -⟩ := hw
  simp

theorem trimmed_eq_self {w : List Char} (hw : EndsTight w) : trimmed w = w := by
  obtain ⟨u, c, rfl, hc⟩ := hw
  have hblank : (c == ' ') = false := beq_eq_false_iff_ne.mpr hc
  simp [trimmed, hblank]

theorem trimmed_append (v w : List Char) :
    trimmed (v ++ w) = if trimmed w = [] then trimmed v else v ++ trimmed w := by
  simp only [trimmed, List.reverse_append, List.dropWhile_append, List.isEmpty_iff,
    List.reverse_eq_nil_iff]
  split <;> simp

/-- What comes before a word that does not end with a blank stays. -/
theorem trimmed_behind (v : List Char) {w : List Char} (hw : EndsTight w) (u : List Char) :
    trimmed (v ++ w ++ u) = v ++ w ++ trimmed u := by
  rw [trimmed_append, trimmed_eq_self (hw.append v)]
  split
  · rename_i hnil
    rw [hnil, List.append_nil]
  · rfl

theorem trimmed_isPrefix (w : List Char) : trimmed w <+: w := by
  have hsuffix : w.reverse.dropWhile (· == ' ') <:+ w.reverse := List.dropWhile_suffix _
  have := List.reverse_prefix.mpr hsuffix
  rwa [List.reverse_reverse] at this

/-! ## Words -/

/-- Nothing, or something that begins with a blank. -/
def Loose (cs : List Char) : Prop :=
  cs = [] ∨ cs.head? = some ' '

theorem Loose.blanks (n : Nat) {cs : List Char} (h : Loose cs) :
    Loose (List.replicate n ' ' ++ cs) := by
  cases n with
  | zero => exact h
  | succ n => exact .inr rfl

theorem Loose.trimmed {cs : List Char} (h : Loose cs) : Loose (trimmed cs) := by
  obtain ⟨tail, htail⟩ := trimmed_isPrefix cs
  cases hcs : Format.trimmed cs with
  | nil => exact .inl rfl
  | cons c rest =>
    rw [hcs] at htail
    rcases h with rfl | h
    · cases htail
    · rw [← htail] at h
      exact .inr h

/-- A line of the given words, with at least one blank between two of them. -/
inductive Spaced : List (List Char) → List Char → Prop
  | nil : Spaced [] []
  | blank {ws : List (List Char)} {cs : List Char} (rest : Spaced ws cs) : Spaced ws (' ' :: cs)
  | word {w : List Char} {ws : List (List Char)} {cs : List Char} (tight : EndsTight w)
      (rest : Spaced ws cs) (loose : Loose cs) : Spaced (w :: ws) (w ++ cs)

namespace Spaced

variable {ws : List (List Char)} {cs : List Char}

theorem blanks (n : Nat) (h : Spaced ws cs) : Spaced ws (List.replicate n ' ' ++ cs) := by
  induction n with
  | zero => exact h
  | succ n ih => exact .blank ih

theorem trim (h : Spaced ws cs) : Spaced ws (trimmed cs) := by
  induction h with
  | nil => exact .nil
  -- A blank goes when nothing but blanks is left behind it.
  | @blank ws cs rest ih =>
    have hsplit := trimmed_append [' '] cs
    rw [List.singleton_append] at hsplit
    rw [hsplit]
    split
    · rename_i hnil
      rwa [hnil] at ih
    · exact .blank ih
  -- A word stays, because it ends with no blank.
  | @word w ws cs tight rest loose ih =>
    rw [trimmed_append, trimmed_eq_self tight]
    split
    · rename_i hnil
      rw [hnil] at ih
      have hword := Spaced.word tight ih (.inl rfl)
      rwa [List.append_nil] at hword
    · exact .word tight ih loose.trimmed

/-- A padded cell in front of a line; an empty one is no word. -/
theorem cell {w : List Char} (hw : w = [] ∨ EndsTight w) (n : Nat) (h : Spaced ws cs)
    (hloose : Loose cs) : Spaced ([w].filter (· ≠ []) ++ ws) (pad w n ++ cs) := by
  have hrest := h.blanks (n - w.length)
  unfold pad
  rw [List.append_assoc]
  rcases hw with rfl | hw
  · exact hrest
  · rw [List.filter_cons_of_pos (by simpa using hw.ne_nil)]
    exact .word hw hrest (hloose.blanks _)

/-- Padded cells with a blank between neighbours: the words are the cells that are not empty. -/
theorem cells (ps : List (List Char × Nat)) (h : ∀ p ∈ ps, p.1 = [] ∨ EndsTight p.1) :
    Spaced ((ps.map (·.1)).filter (· ≠ []))
      (List.intercalate [' '] (ps.map fun p => pad p.1 p.2)) := by
  induction ps with
  | nil => exact .nil
  | cons p ps ih =>
    have hp := h p List.mem_cons_self
    have ih' := ih fun q hq => h q (List.mem_cons_of_mem _ hq)
    have hsplit : ((p :: ps).map (·.1)).filter (· ≠ []) =
        [p.1].filter (· ≠ []) ++ (ps.map (·.1)).filter (· ≠ []) := by
      rw [← List.filter_append]
      rfl
    rw [hsplit, List.map_cons]
    cases ps with
    -- The last cell has nothing behind it.
    | nil =>
      have hcell := cell hp p.2 .nil (.inl rfl)
      rw [List.append_nil] at hcell
      simpa using hcell
    | cons q ps =>
      rw [List.intercalate_cons_of_ne_nil (by simp), List.append_assoc]
      exact cell hp p.2 (.blank ih') (.inr rfl)

theorem words (ws : List (List Char)) (h : ∀ w ∈ ws, EndsTight w) :
    Spaced ws (List.intercalate [' '] ws) := by
  have hpad : ∀ w : List Char, pad w 0 = w := fun w => by simp [pad]
  have hcells := cells (ws.map fun w => (w, 0)) (by
    intro p hp
    obtain ⟨w, hw, rfl⟩ := List.mem_map.mp hp
    exact .inr (h w hw))
  simp only [List.map_map, Function.comp_def, hpad, List.map_id'] at hcells
  rwa [List.filter_eq_self.mpr fun w hw => decide_eq_true (h w hw).ne_nil] at hcells

/-- A line is read word by word. -/
theorem spells {α : Type} {word : α → List Char} {kinds : α → List Kind} {xs : List α}
    (h : Spaced (xs.map word) cs) (hword : ∀ x ∈ xs, Spells (word x) (kinds x)) :
    Spells cs (xs.flatMap kinds) := by
  generalize hws : xs.map word = ws at h
  induction h generalizing xs with
  | nil =>
    obtain rfl := List.map_eq_nil_iff.mp hws
    exact spells_nil
  | blank rest ih => exact (ih hword hws).blanks 1
  | word tight rest loose ih =>
    obtain ⟨x, xs, rfl, rfl, hxs⟩ := List.map_eq_cons_iff.mp hws
    have hrest := ih (fun y hy => hword y (List.mem_cons_of_mem _ hy)) hxs
    refine (hword x List.mem_cons_self).append hrest ?_
    -- What follows a word is a blank or the end of the line, so no name goes on.
    intro c hc
    rcases loose with rfl | hblank
    · cases hc
    · obtain rfl := Option.some.inj (hblank.symm.trans hc)
      rfl

end Spaced

end Keyplan.Format
