import Keyplan.Proofs.Golden.RoundTrip

/-!
# Reading — which texts are tests, and what their parts are

The delimiters among the lines of a text decide whether it is a test. The lines before the first
one, between the two and behind the second one are its parts, and no line is lost on the way. A line
is too long when it has 64 KiB, and the carriage return at its end counts though it is dropped.
-/

namespace Keyplan.Golden

open Text (lineFeed carriageReturn ofBytes ofString allLines lines dropReturn join)

/-! ## 1. Expectations -/

/-- What a text expects behind a delimiter with the word `kind`. -/
inductive Expects : String → Text → Expectation → Prop
  | artifact (t : Target) (text : Text) : Expects t.name text (.artifact t (dropFinalFeeds text))
  | failure (text : Text) : Expects "error" text (.failure text.trim)

theorem exists_expects_iff {kind : String} {text : Text} :
    (∃ e, Expects kind text e) ↔ kind ∈ ["firmware", "diagram", "format", "error"] := by
  constructor
  · rintro ⟨e, ⟨t⟩ | _⟩
    · cases t <;> decide
    · decide
  · simp only [List.mem_cons, List.not_mem_nil, or_false]
    rintro (rfl | rfl | rfl | rfl)
    · exact ⟨_, .artifact .firmware text⟩
    · exact ⟨_, .artifact .diagram text⟩
    · exact ⟨_, .artifact .format text⟩
    · exact ⟨_, .failure text⟩

theorem trim_concat_lineFeed (t : Text) : (t ++ [lineFeed]).trim = t.trim := by
  have hblank : Text.glyphIs isWhiteSpace lineFeed = true := by decide
  unfold Text.trim
  dsimp only
  rw [List.dropWhile_append]
  cases h : t.dropWhile (Text.glyphIs isWhiteSpace) with
  | nil => simp [hblank]
  | cons g rest => simp [hblank]

/-- Line feeds at the end do not matter where all white space at the ends is dropped. -/
theorem trim_dropFinalFeeds (t : Text) : (dropFinalFeeds t).trim = t.trim := by
  induction t using List.reverseRecOn with
  | nil => rfl
  | append_singleton t g ih =>
    by_cases hg : g = lineFeed
    · rw [hg, dropFinalFeeds_concat, ih, trim_concat_lineFeed]
    · simp [dropFinalFeeds, Text.dropRightWhile, hg]

theorem Expects.congr {kind : String} {u v : Text} {e : Expectation} (h : Expects kind u e)
    (huv : dropFinalFeeds u = dropFinalFeeds v) : Expects kind v e := by
  cases h with
  | artifact t =>
    rw [huv]
    exact .artifact t v
  | failure =>
    rw [← trim_dropFinalFeeds, huv, trim_dropFinalFeeds]
    exact .failure v

theorem expectation_eq_ok_iff {p : Part} {e : Expectation} :
    expectation p = .ok e ↔ Expects p.kind p.text e := by
  obtain ⟨kind, ls⟩ := p
  constructor
  · intro h
    unfold expectation at h
    dsimp only at h
    split at h
    · rename_i hkind
      obtain rfl := Except.ok.inj h
      obtain rfl := hkind
      rw [trim_dropFinalFeeds]
      exact .failure _
    · split at h
      · cases h
      · split at h
        · rename_i t ht
          obtain rfl := Except.ok.inj h
          unfold Target.ofName? at ht
          have hname := List.find?_some ht
          obtain rfl := eq_of_beq hname
          exact .artifact t _
        · cases h
  · rintro (⟨t⟩ | _)
    · exact expectation_artifact t ls
    · exact congrArg (fun text => Except.ok (Expectation.failure text)) (trim_dropFinalFeeds _)

/-! ## 2. Three parts -/

theorem delimiterKind?_eq_none_iff {line : Text} :
    delimiterKind? line = none ↔ ∀ word, ¬ IsDelimiter line word := by
  simp only [← delimiterKind?_eq_some_iff, Option.eq_none_iff_forall_ne_some, ne_eq]

/-- Lines among which are two delimiters, and the test made of the lines around them. -/
inductive IsTest : List Text → Case → Prop
  | intro {titled sourced expected : List Text} {d d' : Text} {kind : String} {e : Expectation}
    (title : ∀ l ∈ titled, ∀ word, ¬ IsDelimiter l word) (first : IsDelimiter d "")
    (source : ∀ l ∈ sourced, ∀ word, ¬ IsDelimiter l word) (second : IsDelimiter d' kind)
    (rest : ∀ l ∈ expected, ∀ word, ¬ IsDelimiter l word)
    (expects : Expects kind (join [lineFeed] expected) e) :
    IsTest (titled ++ d :: (sourced ++ d' :: expected))
      { description := (join [lineFeed] titled).trim
        source := join [lineFeed] sourced
        expectation := e }

theorem map_kind_partsFrom (kind : String) (ls : List Text) :
    (partsFrom kind ls).map Part.kind = kind :: ls.filterMap delimiterKind? := by
  induction ls generalizing kind with
  | nil => rfl
  | cons l ls ih =>
    rw [partsFrom]
    cases hl : delimiterKind? l with
    | some next => rw [List.map_cons, ih, List.filterMap_cons_some hl]
    | none =>
      rw [List.filterMap_cons_none hl, ← ih]
      cases hparts : partsFrom kind ls with
      | nil =>
        have h := ih kind
        rw [hparts] at h
        cases h
      | cons p ps => rfl

theorem ofParts_eq_ok_iff {ps : List Part} {c : Case} :
    ofParts ps = .ok c ↔ ∃ p q r e, ps = [p, q, r] ∧ q.kind = "" ∧ Expects r.kind r.text e ∧
      c = { description := p.text.trim, source := q.text, expectation := e } := by
  constructor
  · intro h
    unfold ofParts at h
    split at h
    · rename_i p q r
      split at h
      · cases h
      · rename_i hkind
        obtain ⟨e, he, h⟩ := Outcome.bind_eq_ok_iff.mp h
        exact ⟨p, q, r, e, rfl, not_not.mp hkind, expectation_eq_ok_iff.mp he,
          (Except.ok.inj h).symm⟩
    · cases h
  · rintro ⟨p, q, r, e, rfl, hkind, he, rfl⟩
    unfold ofParts
    dsimp only
    rw [if_neg (not_not.mpr hkind), expectation_eq_ok_iff.mpr he]
    rfl

theorem exists_cut {ls : List Text} {word kind : String}
    (h : ls.filterMap delimiterKind? = [word, kind]) :
    ∃ titled d sourced d' expected, ls = titled ++ d :: (sourced ++ d' :: expected) ∧
      (∀ l ∈ titled, delimiterKind? l = none) ∧ delimiterKind? d = some word ∧
      (∀ l ∈ sourced, delimiterKind? l = none) ∧ delimiterKind? d' = some kind ∧
      ∀ l ∈ expected, delimiterKind? l = none := by
  obtain ⟨titled, d, rest, rfl, htitled, hd, hrest⟩ := List.filterMap_eq_cons_iff.mp h
  obtain ⟨sourced, d', expected, rfl, hsourced, hd', hexpected⟩ :=
    List.filterMap_eq_cons_iff.mp hrest
  exact ⟨titled, d, sourced, d', expected, rfl, htitled, hd, hsourced, hd',
    List.filterMap_eq_nil_iff.mp hexpected⟩

theorem ofParts_parts_iff {ls : List Text} {c : Case} :
    ofParts (parts ls) = .ok c ↔ IsTest ls c := by
  constructor
  · intro h
    obtain ⟨p, q, ⟨kind, behind⟩, e, hparts, hkind, he, rfl⟩ := ofParts_eq_ok_iff.mp h
    have hkinds := map_kind_partsFrom "" ls
    rw [← parts, hparts] at hkinds
    have hwords : ls.filterMap delimiterKind? = ["", kind] := by
      rw [← hkind]
      exact (List.cons.inj hkinds).2.symm
    obtain ⟨titled, d, sourced, d', expected, rfl, htitled, hd, hsourced, hd', hexpected⟩ :=
      exists_cut hwords
    rw [parts_cut htitled hd hsourced hd' hexpected] at hparts
    simp only [List.cons.injEq, Part.mk.injEq, true_and, and_true] at hparts
    obtain ⟨rfl, rfl, rfl⟩ := hparts
    simp only [delimiterKind?_eq_none_iff] at htitled hsourced hexpected
    exact .intro htitled (.of_delimiterKind? hd) hsourced (.of_delimiterKind? hd') hexpected he
  · rintro ⟨htitled, hd, hsourced, hd', hexpected, he⟩
    simp only [← delimiterKind?_eq_none_iff] at htitled hsourced hexpected
    rw [parts_cut htitled hd.delimiterKind?_eq hsourced hd'.delimiterKind?_eq hexpected]
    exact ofParts_eq_ok_iff.mpr ⟨_, _, _, _, rfl, rfl, he, rfl⟩

theorem exists_isTest_iff {ls : List Text} :
    (∃ c, IsTest ls c) ↔ ∃ kind ∈ ["firmware", "diagram", "format", "error"],
      ls.filterMap delimiterKind? = ["", kind] := by
  constructor
  · rintro ⟨c, ⟨htitled, hd, hsourced, hd', hexpected, he⟩⟩
    simp only [← delimiterKind?_eq_none_iff] at htitled hsourced hexpected
    refine ⟨_, exists_expects_iff.mp ⟨_, he⟩, ?_⟩
    rw [List.filterMap_append, List.filterMap_cons_some hd.delimiterKind?_eq,
      List.filterMap_append, List.filterMap_cons_some hd'.delimiterKind?_eq,
      List.filterMap_eq_nil_iff.mpr htitled, List.filterMap_eq_nil_iff.mpr hsourced,
      List.filterMap_eq_nil_iff.mpr hexpected]
    rfl
  · rintro ⟨kind, hkind, hwords⟩
    obtain ⟨titled, d, sourced, d', expected, rfl, htitled, hd, hsourced, hd', hexpected⟩ :=
      exists_cut hwords
    obtain ⟨e, he⟩ := exists_expects_iff.mpr hkind
    simp only [delimiterKind?_eq_none_iff] at htitled hsourced hexpected
    exact ⟨_, .intro htitled (.of_delimiterKind? hd) hsourced (.of_delimiterKind? hd') hexpected
      he⟩

/-! ## 3. Texts -/

theorem Case.parse_eq_ok_iff {t : Text} {c : Case} (hfits : t.readLines.overlong = false) :
    Case.parse t = .ok c ↔ IsTest ((lines t).map dropReturn) c := by
  unfold Case.parse
  dsimp only
  rw [if_neg (Bool.eq_false_iff.mp hfits), readLines_of_fits hfits]
  exact ofParts_parts_iff

theorem Undelimited.not_isDelimiter {u l : Text} (h : Undelimited u) (hl : l ∈ allLines u) :
    ∀ word, ¬ IsDelimiter l word :=
  delimiterKind?_eq_none_iff.mp (h l hl)

theorem isTest_testBytes {title source expected : ByteArray} {kind : String} {e : Expectation}
    (htitle : Undelimited (ofBytes title) ∧ NoReturns (ofBytes title))
    (hsource : Undelimited (ofBytes source) ∧ NoReturns (ofBytes source))
    (hexpected : Undelimited (ofBytes expected) ∧ NoReturns (ofBytes expected))
    (he : Expects kind (ofBytes expected) e) :
    IsTest ((lines (ofBytes (testBytes title source kind expected))).map dropReturn)
      { description := (ofBytes title).trim, source := ofBytes source, expectation := e } := by
  have hword := exists_expects_iff.mp ⟨e, he⟩
  have hsecond : lineFeed ∉ ofString ("--- " ++ kind) ∧
      dropReturn (ofString ("--- " ++ kind)) = ofString ("--- " ++ kind) ∧
      delimiterKind? (ofString ("--- " ++ kind)) = some kind := by
    simp only [List.mem_cons, List.not_mem_nil, or_false] at hword
    rcases hword with rfl | rfl | rfl | rfl <;> decide
  have hfirst : dropReturn (ofString "---") = ofString "---" := by decide
  obtain ⟨hfeed, hreturn, hkind⟩ := hsecond
  rw [lines_testBytes hfeed, List.map_append, List.map_cons, List.map_append, List.map_cons,
    map_dropReturn_eq_self htitle.2, map_dropReturn_eq_self hsource.2,
    hexpected.2.map_dropReturn, hfirst, hreturn]
  have htest := IsTest.intro (d := ofString "---") (fun l hl => htitle.1.not_isDelimiter hl)
    (.of_delimiterKind? (by decide)) (fun l hl => hsource.1.not_isDelimiter hl)
    (.of_delimiterKind? hkind)
    (fun l hl => hexpected.1.not_isDelimiter (Text.mem_allLines_of_mem_lines hl))
    (he.congr (dropFinalFeeds_join_lines _).symm)
  rw [Text.join_allLines, Text.join_allLines] at htest
  exact htest

/-- A text whose lines are shorter than 64 KiB is read as a test exactly if two of its lines are
delimiters, the first without a word and the second with the word of a target or `error`. The parts
are the lines around them. So the parts of a test that is written down are read back. -/
theorem Case.parse_exact (t : Text) (hfits : ∀ l ∈ lines t, l.byteCount < 64 * 1024) :
    ((∃ c, Case.parse t = .ok c) ↔ ∃ kind ∈ ["firmware", "diagram", "format", "error"],
      ((lines t).map dropReturn).filterMap delimiterKind? = ["", kind]) ∧
    (∀ c, Case.parse t = .ok c ↔ IsTest ((lines t).map dropReturn) c) ∧
    ∀ (title source expected : ByteArray) (kind : String),
      t = ofBytes (testBytes title source kind expected) →
      kind ∈ ["firmware", "diagram", "format", "error"] →
      Undelimited (ofBytes title) ∧ NoReturns (ofBytes title) →
      Undelimited (ofBytes source) ∧ NoReturns (ofBytes source) →
      Undelimited (ofBytes expected) ∧ NoReturns (ofBytes expected) →
      ∃ e, Expects kind (ofBytes expected) e ∧ Case.parse t = .ok
        { description := (ofBytes title).trim, source := ofBytes source, expectation := e } := by
  have hparse : ∀ c, Case.parse t = .ok c ↔ IsTest ((lines t).map dropReturn) c :=
    fun c => parse_eq_ok_iff (overlong_of_lines hfits)
  refine ⟨?_, hparse, ?_⟩
  · rw [← exists_isTest_iff]
    exact exists_congr hparse
  · intro title source expected kind ht hkind htitle hsource hexpected
    obtain ⟨e, he⟩ := exists_expects_iff.mpr hkind
    refine ⟨e, he, (hparse _).mpr ?_⟩
    rw [ht]
    exact isTest_testBytes htitle hsource hexpected he

/-- A source with blank lines at both ends, and white space around a part of a message. -/
theorem Case.parse_exact_blankLines : ∃ file, (∀ l ∈ lines file, l.byteCount < 64 * 1024) ∧
    Case.parse file = .ok
      { description := ofString "Blank lines"
        source := ofString "\n\nlayout\n"
        expectation := .failure (ofString "no layout") } := by
  have hclean : ∀ s ∈ ["Blank lines\n", "\n\nlayout\n", " no layout \n\n"],
      Undelimited (ofBytes s.toUTF8) ∧ NoReturns (ofBytes s.toUTF8) := by
    intro s hs
    rw [Text.ofBytes_toUTF8]
    have hline : Undelimited (ofString s) ∧ carriageReturn ∉ ofString s := by
      revert s
      decide
    exact ⟨hline.1, noReturns_of_not_mem hline.2⟩
  have htest := isTest_testBytes (hclean "Blank lines\n" (by decide))
    (hclean "\n\nlayout\n" (by decide)) (hclean " no layout \n\n" (by decide)) (.failure _)
  rw [Text.ofBytes_toUTF8, Text.ofBytes_toUTF8, Text.ofBytes_toUTF8] at htest
  have hfits : ∀ l ∈ lines (ofBytes (testBytes "Blank lines\n".toUTF8 "\n\nlayout\n".toUTF8 "error"
      " no layout \n\n".toUTF8)), l.byteCount < 64 * 1024 :=
    fun l hl => fitsLines_of_size (by decide) l (Text.mem_allLines_of_mem_lines hl)
  obtain ⟨-, hread, -⟩ := parse_exact _ hfits
  exact ⟨_, hfits, (hread _).mpr htest⟩

/-- A test whose title is `n` times the same letter, and has a carriage return behind it. -/
def titled (n : Nat) : Text :=
  List.replicate n (.char 'x') ++ [carriageReturn] ++
    lineFeed :: ofString "---\nsource\n--- format\nexpected"

theorem lines_titled (n : Nat) : lines (titled n) =
    (List.replicate n (.char 'x') ++ [carriageReturn]) ::
      ["---", "source", "--- format", "expected"].map ofString := by
  have hfeed : lineFeed ∉ List.replicate n (Glyph.char 'x') ++ [carriageReturn] := by
    simp [lineFeed, carriageReturn, List.mem_replicate]
  unfold titled
  rw [Text.lines_append_lineFeed, Text.allLines_of_line hfeed]
  rfl

theorem byteCount_replicate (n : Nat) : Text.byteCount (List.replicate n (.char 'x')) = n := by
  unfold Text.byteCount
  induction n with
  | zero => rfl
  | succ n ih =>
    rw [List.replicate_succ, Text.toBytes_cons, List.length_append, ih, Nat.add_comm]
    rfl

/-- A carriage return makes a line too long, though without it the line is shorter than 64 KiB. -/
theorem Case.parse_exact_longTitle :
    (∀ l ∈ (lines (titled 65535)).map dropReturn, l.byteCount < 64 * 1024) ∧
      ((lines (titled 65535)).map dropReturn).filterMap delimiterKind? = ["", "format"] ∧
      Case.parse (titled 65535) = .error .overlongLine := by
  generalize hn : 65535 = n
  have hdrop : (lines (titled n)).map dropReturn = List.replicate n (.char 'x') ::
      ["---", "source", "--- format", "expected"].map ofString := by
    rw [lines_titled, List.map_cons]
    congr 1
    simp [dropReturn]
  refine ⟨?_, ?_, ?_⟩
  · rw [hdrop]
    refine List.forall_mem_cons.mpr ⟨?_, by decide⟩
    rw [byteCount_replicate]
    omega
  · have hquoted : DashQuoted (List.replicate n (.char 'x')) := fun h =>
      absurd (List.eq_of_mem_replicate h) (by decide)
    rw [hdrop, List.filterMap_cons_none hquoted.delimiterKind?_eq]
    decide
  · have hlong : (titled n).readLines.overlong = true := by
      refine List.any_eq_true.mpr ⟨List.replicate n (.char 'x') ++ [carriageReturn], ?_, ?_⟩
      · rw [lines_titled]
        exact List.mem_cons_self
      · have hbytes : Text.byteCount (List.replicate n (.char 'x') ++ [carriageReturn]) =
            n + 1 := by
          have hcount := byteCount_replicate n
          unfold Text.byteCount at hcount ⊢
          rw [Text.toBytes_append, List.length_append, hcount]
          rfl
        dsimp only
        rw [hbytes, ← hn]
        rfl
    unfold Case.parse
    dsimp only
    rw [if_pos hlong]

end Keyplan.Golden
