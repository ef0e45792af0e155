import Keyplan.Golden.Listing
import Keyplan.Proofs.Golden.Documents

/-!
# Round trips — a test made from an artifact passes

A golden test is a title, a source and an artifact with delimiter lines between them. Neither the
source nor what it compiles to has a delimiter line, so the test is cut at the right places. Reading
drops the carriage returns at line ends, which the source does not miss and the artifact does not
have, and the line feeds at the end, which do not count.
-/

namespace Keyplan.Golden

open Text (lineFeed carriageReturn ofBytes ofString allLines lines dropReturn join)

/-! ## 1. Parts -/

section Parts

variable {kind next : String} {ls rest : List Text} {d : Text}

theorem partsFrom_of_none (h : ∀ l ∈ ls, delimiterKind? l = none) :
    partsFrom kind ls = [⟨kind, ls⟩] := by
  induction ls with
  | nil => rfl
  | cons l ls ih =>
    obtain ⟨hl, hls⟩ := List.forall_mem_cons.mp h
    rw [partsFrom, hl]
    dsimp only
    rw [ih hls]

theorem partsFrom_append (h : ∀ l ∈ ls, delimiterKind? l = none)
    (hd : delimiterKind? d = some next) :
    partsFrom kind (ls ++ d :: rest) = ⟨kind, ls⟩ :: partsFrom next rest := by
  induction ls with
  | nil => rw [List.nil_append, partsFrom, hd]
  | cons l ls ih =>
    obtain ⟨hl, hls⟩ := List.forall_mem_cons.mp h
    rw [List.cons_append, partsFrom, hl]
    dsimp only
    rw [ih hls]

end Parts

/-- Two delimiters cut lines into three parts. -/
theorem parts_cut {titled sourced expected : List Text} {d d' : Text} {word kind : String}
    (htitled : ∀ l ∈ titled, delimiterKind? l = none) (hd : delimiterKind? d = some word)
    (hsourced : ∀ l ∈ sourced, delimiterKind? l = none) (hd' : delimiterKind? d' = some kind)
    (hexpected : ∀ l ∈ expected, delimiterKind? l = none) :
    parts (titled ++ d :: (sourced ++ d' :: expected)) =
      [⟨"", titled⟩, ⟨word, sourced⟩, ⟨kind, expected⟩] := by
  rw [parts, partsFrom_append htitled hd, partsFrom_append hsourced hd',
    partsFrom_of_none hexpected]

theorem expectation_artifact (t : Target) (ls : List Text) :
    expectation ⟨t.name, ls⟩ = .ok (.artifact t (dropFinalFeeds (join [lineFeed] ls))) := by
  cases t <;> rfl

theorem ofParts_artifact (t : Target) (titled sourced expected : List Text) :
    ofParts [⟨"", titled⟩, ⟨"", sourced⟩, ⟨t.name, expected⟩] = .ok
      { description := (join [lineFeed] titled).trim
        source := join [lineFeed] sourced
        expectation := .artifact t (dropFinalFeeds (join [lineFeed] expected)) } := by
  show (expectation ⟨t.name, expected⟩ >>= fun e => pure _) = _
  rw [expectation_artifact]
  rfl

/-! ## 2. Line feeds at the end -/

theorem dropFinalFeeds_concat (t : Text) : dropFinalFeeds (t ++ [lineFeed]) = dropFinalFeeds t := by
  simp [dropFinalFeeds, Text.dropRightWhile]

/-- The lines of a text with line feeds between them are the text but for its final line feeds. -/
theorem dropFinalFeeds_join_lines (t : Text) :
    dropFinalFeeds (join [lineFeed] (lines t)) = dropFinalFeeds t := by
  rcases List.eq_nil_or_concat t with rfl | ⟨front, g, rfl⟩
  · rfl
  rw [List.concat_eq_append]
  by_cases hg : g = lineFeed
  · have hlines : lines (front ++ [lineFeed]) = allLines front := by
      rw [Text.lines_append_lineFeed]
      exact List.append_nil _
    rw [hg, hlines, Text.join_allLines, dropFinalFeeds_concat]
  · rw [Text.lines_concat hg, Text.join_allLines]

/-! ## 3. Files -/

/-- Bytes, a line feed and other bytes. -/
def stacked (a b : ByteArray) : ByteArray :=
  a ++ ("\n".toUTF8 ++ b)

/-- The file of a test, with the word of the delimiter before what is expected. -/
def testBytes (title source : ByteArray) (word : String) (expected : ByteArray) : ByteArray :=
  stacked title (stacked "---".toUTF8 (stacked source (stacked ("--- " ++ word).toUTF8 expected)))

/-- The file of a golden test. -/
def fileBytes (title source : ByteArray) (t : Target) (expected : ByteArray) : ByteArray :=
  testBytes title source t.name expected

/-- A text none of whose lines is a delimiter. -/
def Undelimited (t : Text) : Prop :=
  ∀ l ∈ allLines t, delimiterKind? l = none

/-- A text whose lines are shorter than 64 KiB. -/
def FitsLines (t : Text) : Prop :=
  ∀ l ∈ allLines t, l.byteCount < 64 * 1024

instance (t : Text) : Decidable (Undelimited t) :=
  List.decidableBAll _ (allLines t)

/-- A text without carriage returns at line ends. -/
def NoReturns (t : Text) : Prop :=
  ∀ l ∈ allLines t, l.getLast? ≠ some carriageReturn

theorem lines_stacked (a b : ByteArray) :
    lines (ofBytes (stacked a b)) = allLines (ofBytes a) ++ lines (ofBytes b) := by
  rw [stacked, Text.ofBytes_append_lineFeed, Text.lines_append_lineFeed]

variable {title source expected : ByteArray} {t : Target}

theorem lines_testBytes {word : String} (hword : lineFeed ∉ ofString ("--- " ++ word))
    (title source expected : ByteArray) :
    lines (ofBytes (testBytes title source word expected)) =
      allLines (ofBytes title) ++ ofString "---" :: (allLines (ofBytes source) ++
        ofString ("--- " ++ word) :: lines (ofBytes expected)) := by
  have hfirst : allLines (ofString "---") = [ofString "---"] := by decide
  unfold testBytes
  rw [lines_stacked, lines_stacked, lines_stacked, lines_stacked, Text.ofBytes_toUTF8,
    Text.ofBytes_toUTF8, hfirst, Text.allLines_of_line hword]
  rfl

theorem lines_fileBytes (title source expected : ByteArray) (t : Target) :
    lines (ofBytes (fileBytes title source t expected)) =
      allLines (ofBytes title) ++ ofString "---" :: (allLines (ofBytes source) ++
        ofString ("--- " ++ t.name) :: lines (ofBytes expected)) :=
  lines_testBytes (by cases t <;> decide) title source expected

theorem dropReturn_eq_self {l : Text} (h : l.getLast? ≠ some carriageReturn) : dropReturn l = l :=
  if_neg h

theorem map_dropReturn_eq_self {ls : List Text}
    (h : ∀ l ∈ ls, l.getLast? ≠ some carriageReturn) : ls.map dropReturn = ls := by
  rw [List.map_congr_left fun l hl => dropReturn_eq_self (h l hl)]
  exact List.map_id _

theorem NoReturns.map_dropReturn {u : Text} (h : NoReturns u) :
    (lines u).map dropReturn = lines u :=
  map_dropReturn_eq_self fun l hl => h l (Text.mem_allLines_of_mem_lines hl)

theorem none_of_dropReturn {ls : List Text} (h : ∀ l ∈ ls, delimiterKind? l = none) :
    ∀ l ∈ ls.map dropReturn, delimiterKind? l = none :=
  List.forall_mem_map.mpr fun l hl => (delimiterKind?_dropReturn l).trans (h l hl)

theorem readLines_of_fits {u : Text} (h : u.readLines.overlong = false) :
    u.readLines.lines = (lines u).map dropReturn := by
  have hall : ∀ l ∈ lines u, decide (l.byteCount ≤ Text.maxLineBytes) = true := by
    intro l hl
    simpa using List.any_eq_false.mp h l hl
  show ((lines u).takeWhile _).map dropReturn = _
  rw [List.takeWhile_eq_self_iff.mpr hall]

/-- Unless a line is too long, the file of a golden test is read as its three parts. -/
theorem parse_fileBytes (htitle : Undelimited (ofBytes title))
    (hsource : Undelimited (ofBytes source)) (hexpected : Undelimited (ofBytes expected))
    (hreturns : NoReturns (ofBytes expected))
    (hfits : (ofBytes (fileBytes title source t expected)).readLines.overlong = false) :
    ∃ c, Case.parse (ofBytes (fileBytes title source t expected)) = .ok c ∧
      c.source = (ofBytes source).withoutReturns ∧
      c.expectation = .artifact t (dropFinalFeeds (ofBytes expected)) := by
  have hfirst : delimiterKind? (dropReturn (ofString "---")) = some "" := by decide
  have hsecond : delimiterKind? (dropReturn (ofString ("--- " ++ t.name))) = some t.name := by
    cases t <;> decide
  have hlines : ∀ l ∈ lines (ofBytes expected), delimiterKind? l = none :=
    fun l hl => hexpected l (Text.mem_allLines_of_mem_lines hl)
  unfold Case.parse
  dsimp only
  rw [if_neg (Bool.eq_false_iff.mp hfits), readLines_of_fits hfits, lines_fileBytes,
    List.map_append, List.map_cons, List.map_append, List.map_cons, hreturns.map_dropReturn]
  rw [parts_cut (none_of_dropReturn htitle) hfirst (none_of_dropReturn hsource) hsecond hlines,
    ofParts_artifact]
  refine ⟨_, rfl, rfl, ?_⟩
  dsimp only
  rw [dropFinalFeeds_join_lines]

theorem fitsLines_of_size {b : ByteArray} (h : b.size < 64 * 1024) : FitsLines (ofBytes b) := by
  intro l hl
  obtain ⟨front, rest, hinfix⟩ := Text.infix_of_mem_allLines hl
  have hbytes := congrArg (List.length ∘ Text.toBytes) hinfix
  have hsize : b.data.toList.length < 64 * 1024 := h
  simp only [Function.comp_apply, Text.toBytes_append, Text.toBytes_ofBytes,
    List.length_append] at hbytes
  unfold Text.byteCount
  omega

theorem overlong_of_lines {u : Text} (h : ∀ l ∈ lines u, l.byteCount < 64 * 1024) :
    u.readLines.overlong = false := by
  apply List.any_eq_false.mpr
  intro l hl
  have hlt := h l hl
  have hle : l.byteCount ≤ Text.maxLineBytes := by
    unfold Text.maxLineBytes
    omega
  simp [hle]

theorem overlong_fileBytes (htitle : FitsLines (ofBytes title))
    (hsource : FitsLines (ofBytes source)) (hexpected : FitsLines (ofBytes expected)) :
    (ofBytes (fileBytes title source t expected)).readLines.overlong = false := by
  have hfits : ∀ l ∈ lines (ofBytes (fileBytes title source t expected)),
      l.byteCount < 64 * 1024 := by
    have hfirst : (ofString "---").byteCount < 64 * 1024 := by decide
    have hsecond : (ofString ("--- " ++ t.name)).byteCount < 64 * 1024 := by
      cases t <;> decide
    rw [lines_fileBytes]
    simp only [List.forall_mem_append, List.forall_mem_cons]
    exact ⟨htitle, hfirst, hsource, hsecond,
      fun l hl => hexpected l (Text.mem_allLines_of_mem_lines hl)⟩
  exact overlong_of_lines hfits

/-! ## 4. Verdicts -/

/-- What holds of a source and of what it compiles to, as parts of golden tests. -/
structure RoundTrips (source : ByteArray) (t : Target) (out : String) : Prop where
  undelimited_source : Undelimited (ofBytes source)
  undelimited_artifact : Undelimited (ofString out)
  /-- The carriage returns at the line ends of the source do not matter. -/
  without_returns : ∀ path, compile ⟨path, (ofBytes source).withoutReturns⟩ [] t = .ok out
  /-- The test that expects the artifact is read, and it passes. -/
  passes : ∀ (path : String) (title : ByteArray), Undelimited (ofBytes title) →
    FitsLines (ofBytes title) → FitsLines (ofBytes source) → FitsLines (ofString out) →
      ∃ c, Case.parse (ofBytes (fileBytes title source t out.toUTF8)) = .ok c ∧
        Found.run ⟨path, readCase (ofBytes (fileBytes title source t out.toUTF8))⟩ [] = .passed
  /-- A test that expects something else does not. -/
  fails : ∀ (path : String) (title other : ByteArray), Undelimited (ofBytes title) →
    Undelimited (ofBytes other) → NoReturns (ofBytes other) →
      dropFinalFeeds (ofBytes other) ≠ dropFinalFeeds (ofString out) →
        (Found.run ⟨path, readCase (ofBytes (fileBytes title source t other))⟩ []).isPassed = false

theorem run_of_parse {path : String} {file : Text} {c : Case} (h : Case.parse file = .ok c)
    {source : Text} {t : Target} {out : String}
    (hcompile : compile ⟨path, source⟩ [] t = .ok out) (hsource : c.source = source)
    {expected : Text} (hexpected : c.expectation = .artifact t expected) :
    Found.run ⟨path, readCase file⟩ [] =
      if dropFinalFeeds (ofString out) = expected then .passed
      else .otherArtifact expected (dropFinalFeeds (ofString out)) := by
  unfold Found.run readCase
  rw [h]
  show run path [] c = _
  unfold run
  rw [hexpected, hsource]
  show judge (.artifact t expected) (compile ⟨path, source⟩ [] t) = _
  rw [hcompile]
  rfl

theorem noReturns_of_not_mem {u : Text} (h : carriageReturn ∉ u) : NoReturns u := by
  intro l hl hlast
  exact h ((Text.infix_of_mem_allLines hl).subset (List.mem_of_getLast? hlast))

/-- A golden test made from what a source compiles to passes, and with any other text in the place
of the artifact it fails. -/
theorem compile_roundTrips {name : String} {source : ByteArray} {t : Target} {out : String}
    (h : compile ⟨name, ofBytes source⟩ [] t = .ok out) : RoundTrips source t out := by
  have hreturns := compile_of_returns h
  rw [compile_eq_quoting, quoting_eq_ok_iff] at h
  obtain ⟨m, hread, hemit⟩ := Outcome.bind_eq_ok_iff.mp h
  obtain ⟨d, hparse, -⟩ := Outcome.bind_eq_ok_iff.mp hread
  have hsource : Undelimited (ofBytes source) := fun l hl =>
    ((lexes_of_parse hparse).dashQuoted l hl).delimiterKind?_eq
  obtain ⟨hreturn, hartifact⟩ := Target.lines_of_emit hread hemit
  refine ⟨hsource, hartifact, hreturns, ?_, ?_⟩
  · intro path title htitle hfits hfits' hfits''
    rw [← Text.ofBytes_toUTF8] at hreturn hartifact hfits''
    obtain ⟨c, hc, hcsource, hexpected⟩ := parse_fileBytes htitle hsource hartifact
      (noReturns_of_not_mem hreturn) (overlong_fileBytes hfits hfits' hfits'')
    refine ⟨c, hc, ?_⟩
    rw [run_of_parse hc (hreturns path) hcsource hexpected, Text.ofBytes_toUTF8, if_pos rfl]
  · intro path title other htitle hother hend hne
    cases hlong : (ofBytes (fileBytes title source t other)).readLines.overlong with
    -- A test with a line that is too long cannot even be read.
    | true =>
      have hcase : readCase (ofBytes (fileBytes title source t other)) =
          .error CaseFault.overlongLine.message := by
        unfold readCase Case.parse
        dsimp only
        rw [if_pos hlong]
        rfl
      rw [hcase]
      rfl
    | false =>
      obtain ⟨c, hc, hcsource, hexpected⟩ := parse_fileBytes htitle hsource hother hend hlong
      rw [run_of_parse hc (hreturns path) hcsource hexpected, if_neg (Ne.symm hne)]
      rfl

/-- A source with carriage returns, a chord and a key of its own whose text is made of dashes. -/
def dashedKey : String :=
  "layout \x7b 2k; \x7d\r\nkey x \x7b out firmware: \"---\"; \x7d\r\n" ++
    "layer l \x7b 'a' >x< x; \x7d\r\n"

theorem compile_roundTrips_dashedKey : ∃ out,
    compile ⟨"", ofBytes dashedKey.toUTF8⟩ [] .firmware = .ok out ∧
      RoundTrips dashedKey.toUTF8 .firmware out ∧
      Found.run ⟨"", readCase (ofBytes (fileBytes "dashes".toUTF8 dashedKey.toUTF8 .firmware
        out.toUTF8))⟩ [] = .passed := by
  have hrun : (compile ⟨"", ofString dashedKey⟩ [] .firmware).toOption.any
      (fun out => out.toUTF8.size < 64 * 1024) = true := by
    decide +kernel
  obtain ⟨out, hout, hsize⟩ := (Option.any_eq_true _ _).mp hrun
  have hcompile := Outcome.toOption_eq_some_iff.mp hout
  have hfits : FitsLines (ofBytes out.toUTF8) := fitsLines_of_size (of_decide_eq_true hsize)
  have htitle : Undelimited (ofString "dashes") := by decide
  rw [Text.ofBytes_toUTF8] at hfits
  rw [← Text.ofBytes_toUTF8] at hcompile htitle
  have hround := compile_roundTrips hcompile
  obtain ⟨-, -, hpassed⟩ := hround.passes "" "dashes".toUTF8 htitle
    (fitsLines_of_size (by decide)) (fitsLines_of_size (by decide)) hfits
  exact ⟨out, hcompile, hround, hpassed⟩

end Keyplan.Golden
