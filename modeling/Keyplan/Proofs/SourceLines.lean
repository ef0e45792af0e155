import Keyplan.Proofs.Golden.Reading
import Keyplan.Proofs.Underlining

/-!
# Source lines — the rows a diagnostic can quote

A source is read up to its first row of 64 KiB or more. The rows before that one are quoted without
the carriage returns at their ends. It is never quoted itself, and no row behind it is: reading ends
there without a word, and a diagnostic about such a row shows no source.
-/

namespace Keyplan

open Text (lineFeed carriageReturn allLines lines)

/-! ## 1. Rows -/

namespace Text

/-- `line` stands between two line feeds, or between one and an end of the text. Nothing behind a
final line feed is a row. -/
def IsRow (t : Text) (row : Int) (line : Text) : Prop :=
  ∃ front back, t = front ++ line ++ back ∧ lineFeed ∉ line ∧
    (front = [] ∨ front.getLast? = some lineFeed) ∧
    (back.head? = some lineFeed ∨ back = [] ∧ line ≠ []) ∧
    row = front.count lineFeed + 1

/-- One row for each line feed, and one more behind the last of them unless nothing is there. -/
def rowCount (t : Text) : Nat :=
  if t = [] ∨ t.getLast? = some lineFeed then t.count lineFeed else t.count lineFeed + 1

/-- The row, or one before it, has 64 KiB or more. -/
def OutOfReach (t : Text) (row : Int) : Prop :=
  ∃ earlier ≤ row, ∃ line, t.IsRow earlier line ∧ 64 * 1024 ≤ line.byteCount

theorem lines_eq_nil {t : Text} (h : lines t = []) : t = [] := by
  cases t with
  | nil => rfl
  | cons g rest =>
    rw [lines] at h
    split at h
    · cases h
    · split at h <;> cases h

theorem length_lines (t : Text) : (lines t).length = t.rowCount := by
  rcases List.eq_nil_or_concat t with rfl | ⟨front, g, rfl⟩
  · rfl
  rw [List.concat_eq_append, rowCount]
  by_cases hg : g = lineFeed
  · rw [if_pos (.inr (by rw [hg, List.getLast?_concat])), hg, lines_append_lineFeed,
      List.length_append, length_allLines, List.count_append]
    rfl
  · rw [if_neg (by simp [hg]), lines_concat hg, length_allLines]

theorem IsRow.getElem? {t line : Text} {row : Int} (h : t.IsRow row line) :
    ∃ i : Nat, row = i + 1 ∧ (lines t)[i]? = some line := by
  obtain ⟨front, back, rfl, hline, hfront, hback, rfl⟩ := h
  refine ⟨front.count lineFeed, rfl, ?_⟩
  have hfirst : (lines (line ++ back))[0]? = some line := by
    rcases hback with hback | ⟨rfl, hne⟩
    · obtain ⟨rest, rfl⟩ := List.head?_eq_some_iff.mp hback
      rw [lines_append_lineFeed, allLines_of_line hline]
      rfl
    · rw [List.append_nil]
      exact lines_getElem? (by rw [allLines_of_line hline]; rfl) hne
  rcases hfront with rfl | hfront
  · exact hfirst
  · obtain ⟨init, rfl⟩ := List.getLast?_eq_some_iff.mp hfront
    have hcount : (init ++ [lineFeed]).count lineFeed = (allLines init).length := by
      rw [length_allLines, List.count_append]
      rfl
    rw [hcount, List.append_assoc, List.append_assoc, List.singleton_append,
      lines_append_lineFeed, List.getElem?_append_right (Nat.le_refl _), Nat.sub_self]
    exact hfirst

theorem isRow_lineFeed (rest : Text) : IsRow (lineFeed :: rest) 1 [] :=
  ⟨[], lineFeed :: rest, rfl, List.not_mem_nil, .inl rfl, .inl rfl, rfl⟩

theorem isRow_singleton {g : Glyph} (hg : g ≠ lineFeed) : IsRow [g] 1 [g] :=
  ⟨[], [], rfl, by simpa using Ne.symm hg, .inl rfl, .inr ⟨rfl, List.cons_ne_nil _ _⟩, rfl⟩

/-- A line feed in front of a text moves its rows on by one. -/
theorem IsRow.behind_lineFeed {t line : Text} {row : Int} (h : t.IsRow row line) :
    IsRow (lineFeed :: t) (row + 1) line := by
  obtain ⟨front, back, rfl, hline, hfront, hback, rfl⟩ := h
  refine ⟨lineFeed :: front, back, rfl, hline, .inr ?_, hback, ?_⟩
  · rcases hfront with rfl | hfront
    · rfl
    · rw [List.getLast?_cons, hfront]
      rfl
  · rw [List.count_cons_self]
    rfl

/-- Any other glyph in front of a text belongs to its first row. -/
theorem IsRow.cons_first {t line : Text} {g : Glyph} (hg : g ≠ lineFeed) (h : t.IsRow 1 line) :
    IsRow (g :: t) 1 (g :: line) := by
  obtain ⟨front, back, rfl, hline, hfront, hback, hrow⟩ := h
  have hnone : front.count lineFeed = 0 := by omega
  have hnil : front = [] := hfront.resolve_right fun hlast =>
    List.count_eq_zero.mp hnone (List.mem_of_getLast? hlast)
  subst hnil
  exact ⟨[], back, rfl, by simpa [Ne.symm hg] using hline, .inl rfl,
    hback.imp_right fun hb => ⟨hb.1, List.cons_ne_nil _ _⟩, rfl⟩

/-- It changes nothing about the rows behind that one. -/
theorem IsRow.cons_later {t line : Text} {row : Int} {g : Glyph} (hg : g ≠ lineFeed)
    (h : t.IsRow row line) (hlater : row ≠ 1) : IsRow (g :: t) row line := by
  obtain ⟨front, back, rfl, hline, hfront, hback, rfl⟩ := h
  refine ⟨g :: front, back, rfl, hline, .inr ?_, hback, by rw [List.count_cons_of_ne hg]⟩
  rcases hfront with rfl | hfront
  · exact absurd rfl hlater
  · rw [List.getLast?_cons, hfront]
    rfl

theorem isRow_of_getElem? {t line : Text} {i : Nat} (h : (lines t)[i]? = some line) :
    t.IsRow (i + 1) line := by
  induction t generalizing i line with
  | nil => cases h
  | cons g rest ih =>
    rw [lines] at h
    by_cases hg : g = lineFeed
    · rw [if_pos hg] at h
      subst hg
      cases i with
      | zero =>
        obtain rfl : [] = line := Option.some.inj h
        exact isRow_lineFeed rest
      | succ i => exact (ih h).behind_lineFeed
    · rw [if_neg hg] at h
      cases hrest : lines rest with
      | nil =>
        obtain rfl := lines_eq_nil hrest
        obtain ⟨rfl, rfl⟩ : i = 0 ∧ [g] = line := by simpa [lines, List.getElem?_singleton] using h
        exact isRow_singleton hg
      | cons l ls =>
        rw [hrest] at h ih
        cases i with
        | zero =>
          obtain rfl : g :: l = line := Option.some.inj h
          exact (ih (i := 0) rfl).cons_first hg
        | succ i => exact (ih (i := i + 1) h).cons_later hg (by omega)

theorem IsRow.unique {t line other : Text} {row : Int} (h : t.IsRow row line)
    (hother : t.IsRow row other) : other = line := by
  obtain ⟨i, rfl, hline⟩ := h.getElem?
  obtain ⟨j, hj, hother⟩ := hother.getElem?
  obtain rfl : i = j := by omega
  exact Option.some.inj (hother.symm.trans hline)

/-- The rows are numbered from 1. -/
theorem exists_isRow_iff (t : Text) (row : Int) :
    (∃ line, t.IsRow row line) ↔ 1 ≤ row ∧ row ≤ t.rowCount := by
  constructor
  · rintro ⟨line, hrow⟩
    obtain ⟨i, rfl, hline⟩ := hrow.getElem?
    obtain ⟨hi, -⟩ := List.getElem?_eq_some_iff.mp hline
    rw [length_lines] at hi
    omega
  · rintro ⟨hfirst, hlast⟩
    obtain ⟨i, rfl⟩ : ∃ i : Nat, row = i + 1 := ⟨(row - 1).toNat, by omega⟩
    have hi : i < (lines t).length := by
      rw [length_lines]
      omega
    exact ⟨_, isRow_of_getElem? (List.getElem?_eq_getElem hi)⟩

/-! ## 2. Reading -/

theorem readLines_reached {t line : Text} {i : Nat} (hrow : (lines t)[i]? = some line)
    (hreach : ¬ t.OutOfReach (i + 1)) : t.readLines.lines[i]? = some (dropReturn line) := by
  have hlt : i < (lines t).findIdx fun l => !decide (l.byteCount ≤ maxLineBytes) := by
    obtain ⟨hi, -⟩ := List.getElem?_eq_some_iff.mp hrow
    refine List.lt_findIdx_of_not hi fun j hji hlong => hreach ?_
    have hline := isRow_of_getElem? (List.getElem?_eq_getElem (show j < (lines t).length by omega))
    refine ⟨j + 1, by omega, _, hline, ?_⟩
    have hmax : ¬ (lines t)[j].byteCount ≤ maxLineBytes := by simpa using hlong
    exact Nat.lt_of_not_le hmax
  show ((lines t).takeWhile _ |>.map dropReturn)[i]? = _
  rw [List.takeWhile_eq_take_findIdx_not, List.getElem?_map, List.getElem?_take, if_pos hlt, hrow]
  rfl

theorem readLines_unreached {t : Text} {i : Nat} (h : t.OutOfReach (i + 1)) :
    t.readLines.lines[i]? = none := by
  obtain ⟨earlier, hle, line, hrow, hlong⟩ := h
  obtain ⟨j, rfl, hj⟩ := hrow.getElem?
  have hend : ¬ i < (lines t).findIdx fun l => !decide (l.byteCount ≤ maxLineBytes) := by
    intro hlt
    obtain ⟨hj, rfl⟩ := List.getElem?_eq_some_iff.mp hj
    have hfits := List.not_of_lt_findIdx (Nat.lt_of_le_of_lt (show j ≤ i by omega) hlt)
    have hmax : (lines t)[j].byteCount ≤ maxLineBytes := by simpa using hfits
    exact Nat.not_lt_of_le hmax hlong
  show ((lines t).takeWhile _ |>.map dropReturn)[i]? = _
  rw [List.takeWhile_eq_take_findIdx_not, List.getElem?_map, List.getElem?_take, if_neg hend]
  rfl

theorem readLines_missing {t : Text} {i : Nat} (h : (lines t)[i]? = none) :
    t.readLines.lines[i]? = none := by
  have hend := List.getElem?_eq_none_iff.mp h
  have hread : t.readLines.lines.length ≤ (lines t).length := by
    show ((lines t).takeWhile _ |>.map dropReturn).length ≤ _
    rw [List.length_map]
    exact (List.takeWhile_prefix _).length_le
  exact List.getElem?_eq_none (hread.trans hend)

theorem not_outOfReach {t : Text} (h : ∀ l ∈ lines t, l.byteCount < 64 * 1024) (row : Int) :
    ¬ t.OutOfReach row := by
  rintro ⟨earlier, -, line, hrow, hlong⟩
  obtain ⟨i, -, hline⟩ := hrow.getElem?
  exact Nat.not_lt_of_le hlong (h line (List.mem_of_getElem? hline))

end Text

/-! ## 3. Quoting -/

section

variable {source : Text} {row : Int}

theorem sourceLine_reached {line : Text} (hrow : source.IsRow row line)
    (hreach : ¬ source.OutOfReach row) :
    sourceLine source row = line.dropRightWhile (· == carriageReturn) := by
  obtain ⟨i, rfl, hline⟩ := hrow.getElem?
  rw [sourceLine_succ, Text.readLines_reached hline hreach]
  exact Text.dropRightWhile_dropReturn line

theorem sourceLine_eq_nil (h : ∀ i : Nat, row = i + 1 → source.readLines.lines[i]? = none) :
    sourceLine source row = [] := by
  by_cases hpos : row ≤ 0
  · rw [sourceLine, if_pos hpos]
  obtain ⟨i, rfl⟩ : ∃ i : Nat, row = i + 1 := ⟨(row - 1).toNat, by omega⟩
  rw [sourceLine_succ, h i rfl]
  rfl

theorem sourceLine_unreached (h : source.OutOfReach row) : sourceLine source row = [] :=
  sourceLine_eq_nil fun _ hi => Text.readLines_unreached (hi ▸ h)

theorem sourceLine_missing (h : ∀ line, ¬ source.IsRow row line) : sourceLine source row = [] := by
  refine sourceLine_eq_nil fun i hi => Text.readLines_missing ?_
  rw [Option.eq_none_iff_forall_ne_some]
  intro line hline
  exact h line (hi ▸ Text.isRow_of_getElem? hline)

end

theorem snippet_eq_nil_iff (source : Text) (span : Span) :
    snippet source span = [] ↔ sourceLine source span.start.row = [] := by
  unfold snippet
  by_cases h : sourceLine source span.start.row = []
  · simp [h]
  · simp [h, Snippet.margin]

/-- Whatever a source is, its rows are numbered from 1 up to their count, and no two have the same
number. A row that reading reaches is quoted without the carriage returns at its end; where there is
no row, or none that reading reaches, nothing is quoted. So a snippet is empty only for a row that
does not exist, that has nothing but carriage returns, or that is out of reach: a row of 64 KiB or
more, or one behind such a row. -/
theorem sourceLine_finds (source : Text) (row : Int) :
    ((∃ line, source.IsRow row line) ↔ 1 ≤ row ∧ row ≤ source.rowCount) ∧
      (∀ line, source.IsRow row line →
        (∀ other, source.IsRow row other → other = line) ∧
          (¬ source.OutOfReach row →
            sourceLine source row = line.dropRightWhile (· == carriageReturn))) ∧
      ((∀ line, ¬ source.IsRow row line) ∨ source.OutOfReach row → sourceLine source row = []) ∧
      ∀ span : Span, span.start.row = row →
        (snippet source span = [] ↔ source.OutOfReach row ∨
          ∀ line, source.IsRow row line → ∀ g ∈ line, g = carriageReturn) := by
  refine ⟨source.exists_isRow_iff row, fun line hrow => ⟨fun _ => hrow.unique, fun hreach =>
    sourceLine_reached hrow hreach⟩, fun h => h.elim sourceLine_missing sourceLine_unreached, ?_⟩
  rintro span rfl
  rw [snippet_eq_nil_iff]
  by_cases hreach : source.OutOfReach span.start.row
  · exact iff_of_true (sourceLine_unreached hreach) (.inl hreach)
  rw [or_iff_right hreach]
  constructor
  · intro hnil line hrow
    rw [sourceLine_reached hrow hreach] at hnil
    simpa using List.rdropWhile_eq_nil_iff.mp hnil
  · intro hreturns
    by_cases hrow : ∃ line, source.IsRow span.start.row line
    · obtain ⟨line, hrow⟩ := hrow
      rw [sourceLine_reached hrow hreach]
      exact List.rdropWhile_eq_nil_iff.mpr (by simpa using hreturns line hrow)
    · exact sourceLine_missing (not_exists.mp hrow)

/-- A row with two carriage returns at its end, behind an empty one. -/
theorem sourceLine_finds_returnedRow :
    (Text.ofString "a\r\n\nbc\r\r\n").IsRow 3 (Text.ofString "bc\r\r") ∧
      ¬ (Text.ofString "a\r\n\nbc\r\r\n").OutOfReach 3 ∧
      sourceLine (Text.ofString "a\r\n\nbc\r\r\n") 3 = Text.ofString "bc" ∧
      sourceLine (Text.ofString "a\r\n\nbc\r\r\n") 4 = [] := by
  have hrow : (Text.ofString "a\r\n\nbc\r\r\n").IsRow 3 (Text.ofString "bc\r\r") :=
    ⟨Text.ofString "a\r\n\n", [lineFeed], rfl, by decide, .inr rfl, .inl rfl, by decide⟩
  have hreach := Text.not_outOfReach (t := Text.ofString "a\r\n\nbc\r\r\n") (by decide) 3
  have hnone : ∀ line, ¬ (Text.ofString "a\r\n\nbc\r\r\n").IsRow 4 line := fun line hline =>
    absurd ((sourceLine_finds _ 4).1.mp ⟨line, hline⟩) (by decide)
  exact ⟨hrow, hreach, ((sourceLine_finds _ 3).2.1 _ hrow).2 hreach,
    (sourceLine_finds _ 4).2.2.1 (.inl hnone)⟩

/-- A row of one character is not quoted, because the row before it has 64 KiB. -/
theorem sourceLine_finds_behindLongRow :
    Text.IsRow (List.replicate 65536 (.char 'x') ++ [lineFeed, .char 'k']) 2 [.char 'k'] ∧
      sourceLine (List.replicate 65536 (.char 'x') ++ [lineFeed, .char 'k']) 2 = [] ∧
      snippet (List.replicate 65536 (.char 'x') ++ [lineFeed, .char 'k']) ⟨⟨2, 1⟩, ⟨2, 2⟩⟩ = [] := by
  generalize hn : 65536 = n
  have hreach : Text.OutOfReach (List.replicate n (.char 'x') ++ [lineFeed, .char 'k']) 2 := by
    refine ⟨1, by decide, List.replicate n (.char 'x'), ⟨[], [lineFeed, .char 'k'], rfl,
      fun h => absurd (List.eq_of_mem_replicate h) (by decide), .inl rfl, .inl rfl, rfl⟩, ?_⟩
    rw [Golden.byteCount_replicate]
    omega
  refine ⟨⟨List.replicate n (.char 'x') ++ [lineFeed], [], by simp, by decide, .inr (by simp),
    .inr ⟨rfl, List.cons_ne_nil _ _⟩, ?_⟩, sourceLine_unreached hreach, ?_⟩
  · simp [List.count_replicate, lineFeed]
  · rw [snippet_eq_nil_iff]
    exact sourceLine_unreached hreach

end Keyplan
