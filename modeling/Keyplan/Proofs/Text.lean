import Keyplan.Text.Lines

/-!
# Texts — bytes and lines

The bytes of a string are read as its characters, and a line feed parts the bytes before it from
those behind it. A text has one line more than it has line feeds, and what stands behind a line feed
is on lines of its own.
-/

namespace Keyplan.Text

theorem ofChars_append (cs ds : List Char) : ofChars (cs ++ ds) = ofChars cs ++ ofChars ds :=
  List.map_append

theorem length_ofChars (cs : List Char) : (ofChars cs).length = cs.length :=
  List.length_map _

/-! ## Bytes -/

theorem ofBytesFrom_append (cs : List Char) (p : ByteArray) :
    ofBytesFrom (p ++ cs.utf8Encode) p.size = ofChars cs := by
  -- The bytes that were read already stay in front, so the induction is over what is behind.
  induction cs generalizing p with
  | nil =>
    rw [ofBytesFrom, dif_neg (by simp)]
    rfl
  | cons c cs ih =>
    have hdecode : (p ++ (c :: cs).utf8Encode).utf8DecodeChar? p.size = some c := by
      rw [ByteArray.utf8DecodeChar?_eq_utf8DecodeChar?_extract,
        ByteArray.extract_append_eq_right rfl ByteArray.size_append,
        List.utf8DecodeChar?_utf8Encode_cons]
    have hlt := ByteArray.lt_size_of_isSome_utf8DecodeChar? (by rw [hdecode]; rfl)
    have hsize : (p ++ [c].utf8Encode).size = p.size + c.utf8Size := by
      rw [ByteArray.size_append]
      simp [List.utf8Encode]
    rw [ofBytesFrom, dif_pos hlt, hdecode]
    have hrest := ih (p ++ [c].utf8Encode)
    rw [hsize, ByteArray.append_assoc, ← List.utf8Encode_cons] at hrest
    simp only [hrest]
    rfl

theorem ofBytes_toUTF8 (s : String) : ofBytes s.toUTF8 = ofString s := by
  have hbytes : s.toUTF8 = ByteArray.empty ++ s.toList.utf8Encode := by
    rw [ByteArray.empty_append]
    simp
  rw [hbytes]
  exact ofBytesFrom_append s.toList ByteArray.empty

theorem toBytes_cons (g : Glyph) (t : Text) : toBytes (g :: t) = g.bytes ++ toBytes t :=
  List.flatMap_cons

theorem toBytes_append (t u : Text) : toBytes (t ++ u) = toBytes t ++ toBytes u :=
  List.flatMap_append

theorem toBytes_prefix {t u : Text} (h : t <+: u) : t.toBytes <+: u.toBytes := by
  obtain ⟨v, rfl⟩ := h
  exact ⟨toBytes v, (toBytes_append t v).symm⟩

/-- Every glyph has bytes, so a longer text has more of them. -/
theorem length_toBytes_lt {t u : Text} (h : t <+: u) (hlt : t.length < u.length) :
    t.toBytes.length < u.toBytes.length := by
  obtain ⟨v, rfl⟩ := h
  rw [toBytes_append, List.length_append]
  cases v with
  | nil => simp at hlt
  | cons g v =>
    have hg : 0 < g.bytes.length := by
      cases g with
      | char c => exact (String.length_utf8EncodeChar c).symm ▸ c.utf8Size_pos
      | stray b => exact Nat.zero_lt_one
    rw [toBytes_cons, List.length_append]
    omega

/-- A character is read exactly where its encoding stands. -/
theorem utf8DecodeChar?_eq_some_iff {b : ByteArray} {i : Nat} {c : Char} :
    b.utf8DecodeChar? i = some c ↔ String.utf8EncodeChar c <+: b.data.toList.drop i := by
  constructor
  · intro h
    exact ⟨_, (drop_eq_of_utf8DecodeChar? h).symm⟩
  · rintro ⟨after, hafter⟩
    have hextract : b.extract i b.size =
        (String.utf8EncodeChar c).toByteArray ++ after.toByteArray := by
      apply ByteArray.ext
      apply Array.toList_inj.mp
      rw [toList_extract_size, ← hafter]
      simp
    rw [ByteArray.utf8DecodeChar?_eq_utf8DecodeChar?_extract, hextract,
      ByteArray.utf8DecodeChar?_utf8EncodeChar_append]

/-- Where the bytes of characters stand, the characters are read. -/
theorem ofBytesFrom_of_prefix {b : ByteArray} {i : Nat} {cs : List Char}
    (h : (ofChars cs).toBytes <+: b.data.toList.drop i) :
    ∃ rest, ofBytesFrom b i = ofChars cs ++ rest := by
  induction cs generalizing i with
  | nil => exact ⟨_, rfl⟩
  | cons c cs ih =>
    obtain ⟨after, hafter⟩ := h
    have hfront : b.data.toList.drop i =
        String.utf8EncodeChar c ++ ((ofChars cs).toBytes ++ after) := by
      rw [← hafter]
      exact List.append_assoc _ _ _
    have hdecode : b.utf8DecodeChar? i = some c := by
      rw [utf8DecodeChar?_eq_some_iff, hfront]
      exact List.prefix_append _ _
    have hlt := ByteArray.lt_size_of_isSome_utf8DecodeChar? (by rw [hdecode]; rfl)
    have hbehind : b.data.toList.drop (i + c.utf8Size) = (ofChars cs).toBytes ++ after :=
      List.append_cancel_left ((drop_eq_of_utf8DecodeChar? hdecode).symm.trans hfront)
    obtain ⟨rest, hrest⟩ := ih ⟨after, hbehind.symm⟩
    refine ⟨rest, ?_⟩
    rw [ofBytesFrom, dif_pos hlt, hdecode]
    exact congrArg (Glyph.char c :: ·) hrest

/-- What is read behind the front of a text is read from the bytes behind it. -/
theorem ofBytesFrom_append_eq {b : ByteArray} {i : Nat} {front rest : Text}
    (h : ofBytesFrom b i = front ++ rest) :
    rest = ofBytesFrom b (i + front.toBytes.length) := by
  induction front generalizing i with
  | nil => exact h.symm
  | cons g front ih =>
    rw [toBytes_cons, List.length_append, ← Nat.add_assoc]
    apply ih
    rw [ofBytesFrom] at h
    split at h
    · split at h
      · obtain ⟨rfl, htail⟩ := List.cons.inj h
        rw [Glyph.bytes, String.length_utf8EncodeChar]
        exact htail
      · obtain ⟨rfl, htail⟩ := List.cons.inj h
        exact htail
    · cases h

theorem length_drop_bytes (b : ByteArray) (i : Nat) :
    (b.data.toList.drop i).length = b.size - i :=
  List.length_drop

/-- What is read depends on the bytes from there on only. -/
theorem ofBytesFrom_congr {b b' : ByteArray} {i j : Nat}
    (h : b.data.toList.drop i = b'.data.toList.drop j) : ofBytesFrom b i = ofBytesFrom b' j := by
  have hdecode : ∀ {i j : Nat}, b.data.toList.drop i = b'.data.toList.drop j →
      b'.utf8DecodeChar? j = b.utf8DecodeChar? i := by
    intro i j h
    ext c
    rw [utf8DecodeChar?_eq_some_iff, utf8DecodeChar?_eq_some_iff, h]
  have hlength := congrArg List.length h
  rw [length_drop_bytes, length_drop_bytes] at hlength
  fun_induction ofBytesFrom b i generalizing j with
  | case1 i hi c hc ih =>
    have hrest : b.data.toList.drop (i + c.utf8Size) = b'.data.toList.drop (j + c.utf8Size) := by
      rw [← List.drop_drop, ← List.drop_drop, h]
    rw [ofBytesFrom.eq_def b', dif_pos (by omega), hdecode h, hc]
    show _ = Glyph.char c :: _
    rw [ih hrest (by omega)]
  | case2 i hi hc ih =>
    have hj : j < b'.size := by omega
    rw [ofBytesFrom.eq_def b', dif_pos hj, hdecode h, hc]
    rw [List.drop_eq_getElem_cons (show i < b.data.toList.length from hi),
      List.drop_eq_getElem_cons (show j < b'.data.toList.length from hj)] at h
    obtain ⟨hbyte, hrest⟩ := List.cons.inj h
    have hstray : b[i] = b'[j] := hbyte
    show _ = Glyph.stray b'[j] :: _
    rw [ih hrest (by omega), hstray]
  | case3 i hi =>
    rw [ofBytesFrom.eq_def b', dif_neg (by omega)]

/-- Bytes behind those of a string are read on their own. -/
theorem ofBytes_toUTF8_append (s : String) (b : ByteArray) :
    ofBytes (s.toUTF8 ++ b) = ofString s ++ ofBytes b := by
  have hfront : (ofString s).toBytes = s.toUTF8.data.toList := by
    rw [← ofBytes_toUTF8, toBytes_ofBytes]
  have hbytes : (s.toUTF8 ++ b).data.toList = (ofString s).toBytes ++ b.data.toList := by
    rw [ByteArray.data_append, Array.toList_append, hfront]
  obtain ⟨rest, hrest⟩ : ∃ rest, ofBytesFrom (s.toUTF8 ++ b) 0 = ofString s ++ rest :=
    ofBytesFrom_of_prefix ⟨b.data.toList, hbytes.symm⟩
  have hbehind : rest = ofBytes b := by
    rw [ofBytesFrom_append_eq hrest]
    apply ofBytesFrom_congr
    rw [hbytes, Nat.zero_add]
    exact List.drop_left
  rw [ofBytes, hrest, hbehind]

/-- A line feed is no part of the encoding of a character that starts before it. -/
theorem encoding_prefix {c : Char} {front back : List UInt8} (hne : front ≠ [])
    (h : String.utf8EncodeChar c <+: front ++ 10 :: back) : String.utf8EncodeChar c <+: front := by
  rcases Nat.lt_or_ge front.length (String.utf8EncodeChar c).length with hlt | hle
  · exfalso
    have hfeed : (String.utf8EncodeChar c)[front.length] = 10 := by
      rw [List.IsPrefix.getElem h hlt]
      simp
    have hfirst : (String.utf8EncodeChar c)[front.length].IsUTF8FirstByte := by
      rw [hfeed]
      decide
    have hzero := UInt8.isUTF8FirstByte_getElem_utf8EncodeChar.mp hfirst
    exact hne (List.length_eq_zero_iff.mp hzero)
  · exact List.prefix_of_prefix_length_le h (List.prefix_append _ _) hle

theorem ofBytesFrom_append_feed {a b : ByteArray} {back : List UInt8}
    (hb : b.data.toList = 10 :: back) {i : Nat} (hi : i ≤ a.size) :
    ofBytesFrom (a ++ b) i = ofBytesFrom a i ++ ofBytes b := by
  have hbytes : (a ++ b).data.toList = a.data.toList ++ 10 :: back := by
    rw [ByteArray.data_append, Array.toList_append, hb]
  have hdrop : ∀ {i}, i ≤ a.size →
      (a ++ b).data.toList.drop i = a.data.toList.drop i ++ 10 :: back := by
    intro i hi
    rw [hbytes, List.drop_append_of_le_length hi]
  -- No encoding goes on over the line feed, so the same characters are found with and without it.
  have hdecode : ∀ {i}, i < a.size → (a ++ b).utf8DecodeChar? i = a.utf8DecodeChar? i := by
    intro i hi
    ext c
    rw [utf8DecodeChar?_eq_some_iff, utf8DecodeChar?_eq_some_iff, hdrop (Nat.le_of_lt hi)]
    constructor
    · apply encoding_prefix
      apply List.ne_nil_of_length_pos
      rw [length_drop_bytes]
      omega
    · exact fun h => h.trans (List.prefix_append _ _)
  have hsize : (a ++ b).size = a.size + b.size := ByteArray.size_append
  fun_induction ofBytesFrom a i with
  | case1 i h c hc ih =>
    have hle : i + c.utf8Size ≤ a.size := by
      have hlength := congrArg List.length (drop_eq_of_utf8DecodeChar? hc)
      rw [List.length_append, String.length_utf8EncodeChar, length_drop_bytes] at hlength
      omega
    rw [ofBytesFrom.eq_def (a ++ b), dif_pos (by omega), hdecode h, hc]
    exact congrArg (Glyph.char c :: ·) (ih hle)
  | case2 i h hc ih =>
    have hi' : i < (a ++ b).size := by omega
    have hbyte : (a ++ b)[i] = a[i] := ByteArray.getElem_append_left h
    rw [ofBytesFrom.eq_def (a ++ b), dif_pos hi', hdecode h, hc]
    show Glyph.stray (a ++ b)[i] :: _ = _
    rw [ih (by omega), hbyte]
    rfl
  | case3 i h =>
    obtain rfl : i = a.size := by omega
    apply ofBytesFrom_congr
    rw [hdrop (Nat.le_refl _), hb]
    simp

/-- A line feed parts the text before it from the one behind it. -/
theorem ofBytes_append_lineFeed (a b : ByteArray) :
    ofBytes (a ++ ("\n".toUTF8 ++ b)) = ofBytes a ++ lineFeed :: ofBytes b := by
  have hbytes : ("\n".toUTF8 ++ b).data.toList = 10 :: b.data.toList := by
    rw [ByteArray.data_append, Array.toList_append]
    rfl
  have hdecode : ("\n".toUTF8 ++ b).utf8DecodeChar? 0 = some '\n' := by
    rw [utf8DecodeChar?_eq_some_iff, hbytes]
    exact ⟨b.data.toList, rfl⟩
  have hlt := ByteArray.lt_size_of_isSome_utf8DecodeChar? (by rw [hdecode]; rfl)
  have hrest : ofBytesFrom ("\n".toUTF8 ++ b) 1 = ofBytes b := by
    apply ofBytesFrom_congr
    rw [hbytes]
    rfl
  have hbehind : ofBytes ("\n".toUTF8 ++ b) = lineFeed :: ofBytes b := by
    rw [ofBytes, ofBytesFrom, dif_pos hlt, hdecode]
    exact congrArg (lineFeed :: ·) hrest
  rw [ofBytes, ofBytesFrom_append_feed hbytes (Nat.zero_le _), hbehind]
  rfl

/-! ## Lines -/

theorem allLines_append_lineFeed (t u : Text) :
    allLines (t ++ lineFeed :: u) = allLines t ++ allLines u := by
  induction t with
  | nil => simp [allLines]
  | cons g t ih =>
    rw [List.cons_append, allLines, allLines, ih]
    by_cases hg : g = lineFeed
    · rw [if_pos hg, if_pos hg, List.cons_append]
    · rw [if_neg hg, if_neg hg]
      cases hl : allLines t with
      | nil => exact absurd hl (allLines_ne_nil t)
      | cons l ls => rfl

theorem length_allLines (t : Text) : (allLines t).length = t.count lineFeed + 1 := by
  induction t with
  | nil => rfl
  | cons g t ih =>
    rw [allLines, List.count_cons]
    by_cases hg : g = lineFeed
    · rw [if_pos hg, List.length_cons, ih, if_pos (beq_iff_eq.mpr hg)]
    · rw [if_neg hg, if_neg (by simpa using hg)]
      cases hl : allLines t with
      | nil => exact absurd hl (allLines_ne_nil t)
      | cons l ls =>
        rw [hl] at ih
        exact ih

/-- The glyphs before the first line feed. -/
def firstLine (t : Text) : Text :=
  t.takeWhile fun g => decide (g ≠ lineFeed)

/-- The glyphs behind the last line feed. -/
def lastLine (t : Text) : Text :=
  (t.reverse.takeWhile fun g => decide (g ≠ lineFeed)).reverse

theorem ne_lineFeed_of_mem {t : Text} (h : lineFeed ∉ t) :
    ∀ g ∈ t, decide (g ≠ lineFeed) = true := by
  intro g hg
  apply decide_eq_true
  rintro rfl
  exact h hg

theorem firstLine_append {t : Text} (h : lineFeed ∉ t) (u : Text) :
    (t ++ u).firstLine = t ++ u.firstLine :=
  List.takeWhile_append_of_pos (ne_lineFeed_of_mem h)

theorem lastLine_append {u : Text} (h : lineFeed ∉ u) (t : Text) :
    (t ++ u).lastLine = t.lastLine ++ u := by
  have hu : lineFeed ∉ u.reverse := fun hmem => h (List.mem_reverse.mp hmem)
  unfold lastLine
  rw [List.reverse_append, List.takeWhile_append_of_pos (ne_lineFeed_of_mem hu),
    List.reverse_append, List.reverse_reverse]

theorem lastLine_append_lineFeed (t : Text) : (t ++ [lineFeed]).lastLine = [] := by
  simp [lastLine]

theorem lineFeed_not_mem_lastLine (t : Text) : lineFeed ∉ t.lastLine := by
  intro hmem
  have hne := List.all_eq_true.mp List.all_takeWhile _ (List.mem_reverse.mp hmem)
  exact of_decide_eq_true hne rfl

/-- The last line is all there is, or a line feed stands before it. -/
theorem eq_lastLine_or (t : Text) :
    t = t.lastLine ∨ ∃ front, t = front ++ lineFeed :: t.lastLine := by
  have hsplit := List.takeWhile_append_dropWhile (p := fun g => decide (g ≠ lineFeed))
    (l := t.reverse)
  cases hrest : t.reverse.dropWhile fun g => decide (g ≠ lineFeed) with
  | nil =>
    left
    rw [hrest, List.append_nil] at hsplit
    rw [lastLine, hsplit, List.reverse_reverse]
  | cons g front =>
    right
    have hg : g = lineFeed := by
      have hhead := List.head?_dropWhile_not (fun g => decide (g ≠ lineFeed)) t.reverse
      rw [hrest] at hhead
      simpa using hhead
    rw [hrest, hg] at hsplit
    have hback := congrArg List.reverse hsplit
    rw [List.reverse_append, List.reverse_cons, List.reverse_reverse, List.append_assoc] at hback
    exact ⟨front.reverse, hback.symm⟩

theorem allLines_zero (t : Text) : (allLines t)[0]? = some t.firstLine := by
  induction t with
  | nil => rfl
  | cons g t ih =>
    rw [allLines, firstLine, List.takeWhile_cons]
    by_cases hg : g = lineFeed
    · simp [hg]
    · rw [if_neg hg, if_pos (decide_eq_true hg)]
      cases hl : allLines t with
      | nil => exact absurd hl (allLines_ne_nil t)
      | cons l ls =>
        rw [hl] at ih
        exact congrArg some (congrArg (g :: ·) (Option.some.inj ih))

/-- The line that a text breaks off on goes on with what follows. -/
theorem allLines_count (t u : Text) :
    (allLines (t ++ u))[t.count lineFeed]? = some (t.lastLine ++ u.firstLine) := by
  have hnone : t.lastLine.count lineFeed = 0 :=
    List.count_eq_zero.mpr t.lineFeed_not_mem_lastLine
  have hline : (allLines (t.lastLine ++ u))[0]? = some (t.lastLine ++ u.firstLine) := by
    rw [allLines_zero, firstLine_append t.lineFeed_not_mem_lastLine]
  rcases t.eq_lastLine_or with ht | ⟨front, ht⟩
  · rw [← ht] at hnone hline ⊢
    rwa [hnone]
  · generalize t.lastLine = r at *
    have hcount : t.count lineFeed = (allLines front).length := by
      rw [length_allLines, ht, List.count_append, List.count_cons_self, hnone]
    rw [hcount, ht, List.append_assoc, List.cons_append, allLines_append_lineFeed,
      List.getElem?_append_right (Nat.le_refl _), Nat.sub_self]
    exact hline

theorem allLines_eq_cons (t : Text) : allLines t = t.firstLine :: (allLines t).tail := by
  have hhead := allLines_zero t
  cases h : allLines t with
  | nil => exact absurd h (allLines_ne_nil t)
  | cons l ls =>
    rw [h] at hhead
    rw [Option.some.inj hhead]
    rfl

/-- What has no line feed belongs to the first line of what follows. -/
theorem allLines_append_of_line {t : Text} (h : lineFeed ∉ t) (u : Text) :
    allLines (t ++ u) = (t ++ u.firstLine) :: (allLines u).tail := by
  induction t with
  | nil => exact allLines_eq_cons u
  | cons g t ih =>
    have hg : g ≠ lineFeed := fun e => h (e ▸ List.mem_cons_self)
    rw [List.cons_append, allLines, if_neg hg, ih fun hmem => h (List.mem_cons_of_mem g hmem)]
    rfl

theorem allLines_of_line {t : Text} (h : lineFeed ∉ t) : allLines t = [t] := by
  simpa [firstLine, allLines] using allLines_append_of_line h []

theorem lastLine_behind_lineFeed {t : Text} (h : lineFeed ∉ t) (front : Text) :
    (front ++ lineFeed :: t).lastLine = t := by
  rw [List.append_cons, lastLine_append h, lastLine_append_lineFeed, List.nil_append]

/-- The lines of two texts: the last line of the first one goes on with the first of the second. -/
theorem allLines_append (t u : Text) :
    ∃ init, allLines t = init ++ [t.lastLine] ∧
      allLines (t ++ u) = init ++ (t.lastLine ++ u.firstLine) :: (allLines u).tail := by
  have hnone := t.lineFeed_not_mem_lastLine
  have hlast := allLines_of_line hnone
  rcases t.eq_lastLine_or with ht | ⟨front, ht⟩
  · refine ⟨[], ?_, ?_⟩
    · rw [← ht] at hlast ⊢
      exact hlast
    · have happend := allLines_append_of_line hnone u
      rw [← ht] at happend ⊢
      exact happend
  · refine ⟨allLines front, ?_, ?_⟩
    · rw [← hlast, ← allLines_append_lineFeed, ← ht]
    · rw [← allLines_append_of_line hnone, ← allLines_append_lineFeed]
      congr 1
      rw [← List.cons_append, ← List.append_assoc, ← ht]

/-- What holds of lines and of lines put together holds of the lines of two texts. -/
theorem forall_allLines_append {P : Text → Prop} (hP : ∀ l l', P l → P l' → P (l ++ l'))
    {t u : Text} (ht : ∀ l ∈ allLines t, P l) (hu : ∀ l ∈ allLines u, P l) :
    ∀ l ∈ allLines (t ++ u), P l := by
  obtain ⟨init, hinit, happend⟩ := allLines_append t u
  rw [hinit] at ht
  rw [allLines_eq_cons u] at hu
  obtain ⟨hinit, hlast⟩ := List.forall_mem_append.mp ht
  obtain ⟨hfirst, htail⟩ := List.forall_mem_cons.mp hu
  rw [happend]
  refine List.forall_mem_append.mpr ⟨hinit, List.forall_mem_cons.mpr ⟨?_, htail⟩⟩
  exact hP _ _ (hlast _ List.mem_cons_self) hfirst

theorem lines_append_lineFeed (t u : Text) :
    lines (t ++ lineFeed :: u) = allLines t ++ lines u := by
  induction t with
  | nil => rfl
  | cons g rest ih =>
    rw [List.cons_append, lines, allLines]
    split
    · rw [ih]
      rfl
    · rw [ih]
      cases h : allLines rest with
      | nil => exact absurd h (allLines_ne_nil rest)
      | cons l ls => rfl

/-- A text that does not end with a line feed has the same lines in both counts. -/
theorem lines_concat {g : Glyph} (hg : g ≠ lineFeed) (t : Text) :
    lines (t ++ [g]) = allLines (t ++ [g]) := by
  induction t with
  | nil => simp [lines, allLines, hg]
  | cons g' rest ih => rw [List.cons_append, lines, allLines, ih]

theorem mem_allLines_of_mem_lines {t l : Text} (h : l ∈ lines t) : l ∈ allLines t := by
  rcases List.eq_nil_or_concat t with rfl | ⟨front, g, rfl⟩
  · cases h
  by_cases hg : g = lineFeed
  · rw [hg, List.concat_eq_append, lines_append_lineFeed] at h
    rw [hg, List.concat_eq_append, allLines_append_lineFeed]
    exact List.mem_append_left _ (by simpa [lines] using h)
  · rwa [List.concat_eq_append, lines_concat hg, ← List.concat_eq_append] at h

theorem infix_of_mem_allLines {t l : Text} (hl : l ∈ allLines t) : l <:+: t := by
  induction t generalizing l with
  | nil => exact List.mem_singleton.mp hl ▸ List.nil_infix
  | cons g rest ih =>
    rw [allLines] at hl
    split at hl
    · rcases List.mem_cons.mp hl with rfl | hl
      · exact List.nil_infix
      · exact List.infix_cons (ih hl)
    · rw [allLines_eq_cons rest] at hl ih
      rcases List.mem_cons.mp hl with rfl | hl
      · exact ((List.prefix_cons_inj g).mpr (List.takeWhile_prefix _)).isInfix
      · exact List.infix_cons (ih (List.mem_cons_of_mem _ hl))

end Keyplan.Text
