import Keyplan.Proofs.Grammar.Soundness
import Keyplan.Proofs.Guarded.Reader
import Keyplan.Proofs.Token.Spelling

/-!
# Guarded tokens — the buffer holds what is left to read

Every lexeme of a text is long enough to be cut, so the tokens that are handed out are those of the
text. A reader holds the tokens that are left: those in its buffer can be read, and the ends of the
file behind them stand there only when no lexeme is left.
-/

namespace Keyplan.Guarded

open Keyplan.Parser Lexeme

/-! ## Steps of a reader -/

section

variable {α β γ δ : Type} {R : β → α → Reader → Prop} {S : δ → γ → Reader → Prop}

/-- The reading does not miss: it fails as the computation does, or what it reads and the reader it
leaves are related to the result. -/
def Reads (R : β → α → Reader → Prop) (x : Guarded (α × Reader)) (y : Except Diagnostic β) : Prop :=
  Follows (fun b x => R b x.1 x.2) x y

namespace Reads

theorem ok {a : α} {r : Reader} {b : β} (h : R b a r) : Reads R (pure (a, r)) (.ok b) :=
  Follows.ok h

theorem error (d : Diagnostic) : Reads R (throw d) (.error d) :=
  Follows.error d

theorem bind {x : Reading α} {f : α → Reading γ} {r : Reader} {y : Except Diagnostic β}
    {g : β → Except Diagnostic δ} (hx : Reads R (x r) y)
    (hk : ∀ b a r', y = .ok b → R b a r' → Reads S (f a r') (g b)) :
    Reads S ((x >>= f) r) (y >>= g) :=
  Follows.bind hx fun b x hy h => hk b x.1 x.2 hy h

/-- A reading that ends before the computation has put its result together. -/
theorem bind_ok {x : Guarded (α × Reader)} {y : Except Diagnostic β} {g : β → Except Diagnostic δ}
    {S : δ → α → Reader → Prop} (hx : Reads R x y)
    (hk : ∀ b a r, R b a r → ∃ d, g b = .ok d ∧ S d a r) : Reads S x (y >>= g) := by
  cases hx with
  | ok h =>
    obtain ⟨d, hd, hS⟩ := hk _ _ _ h
    rw [Outcome.ok_bind, hd]
    exact .ok hS
  | error d => exact .error d

end Reads

theorem read_eq {x : Reading α} {k : α → Reading γ} {r r' : Reader} {a : α}
    (h : x r = pure (a, r')) : (x >>= k) r = k a r' := by
  show (x r >>= fun y => k y.1 y.2) = _
  rw [h]
  rfl

theorem get_bind (k : Reader → Reading γ) (r : Reader) :
    ((get : Reading Reader) >>= k) r = k r r := rfl

/-- A step that does not touch the reader. -/
theorem lift_bind (x : Guarded α) (k : α → Reading γ) (r : Reader) :
    ((liftM x : Reading α) >>= k) r = x >>= fun a => k a r := by
  rcases x with _ | _ | a <;> rfl

/-- A step that does not touch the reader follows a step of the computation. -/
theorem Reads.lift {Q : β → α → Prop} {x : Guarded α} {k : α → Reading γ} {r : Reader}
    {y : Except Diagnostic β} {k' : β → Except Diagnostic δ} (hx : Follows Q x y)
    (hk : ∀ b a, Q b a → Reads S (k a r) (k' b)) :
    Reads S (((liftM x : Reading α) >>= k) r) (y >>= k') := by
  rw [lift_bind]
  exact hx.bind fun b a _ h => hk b a h

end

/-! ## Cutting lexemes -/

/-- A lexeme with room for its quotes or its unit. -/
def Cuttable (l : Lexeme) : Prop :=
  match l.kind with
  | .keyCount => 1 ≤ l.text.length
  | .spaceCount => 1 ≤ l.text.length
  | .character => 2 ≤ l.text.length
  | .string => 2 ≤ l.text.length
  | _ => True

theorem length_stringTail {escaped : Bool} {t : Text} (h : (stringTail escaped t).1 = .string) :
    1 ≤ (t.take (stringTail escaped t).2).length := by
  fun_induction stringTail escaped t with
  | case1 => cases h
  | case2 => simp
  | case3 => simp
  | case4 => cases h
  | case5 => cases h

theorem cuttable_of_mem_scan {source : Text} {l : Lexeme} (h : l ∈ scan source) : Cuttable l := by
  rcases Token.mem_mergeInvalid h with hcut | hinvalid
  · obtain ⟨g, rest, rfl⟩ := Token.mem_cut hcut
    obtain ⟨-, hchar, hstring⟩ := Token.classify_cases g rest
    unfold Cuttable
    split
    · simp
    · simp
    -- A character literal has both of its quotes.
    · rename_i hclass
      have htail := hchar hclass
      obtain ⟨c, rest', rfl, -, htwo⟩ := Token.characterTail_eq_character (htail ▸ hclass)
      simp [htail, htwo]
    -- A string literal has its closing quote behind the opening one.
    · rename_i hclass
      have htail := hstring hclass
      have hlen := length_stringTail (htail ▸ hclass)
      rw [htail, List.length_cons]
      omega
    · trivial
  · simp [Cuttable, hinvalid]

theorem kindOf?_eq {l : Lexeme} (h : Cuttable l) : kindOf? l = pure (Token.Kind.ofLexeme? l) := by
  have hlen : (Token.charsOf l.text).length = l.text.length := List.length_map _
  unfold Cuttable at h
  unfold kindOf? Token.Kind.ofLexeme?
  cases hk : l.kind with
  | keyCount =>
    simp only [hk] at h ⊢
    rw [slice_dropLast (hlen ▸ h)]
    rfl
  | spaceCount =>
    simp only [hk] at h ⊢
    rw [slice_dropLast (hlen ▸ h)]
    rfl
  | character =>
    simp only [hk] at h ⊢
    rw [slice_tail (by omega)]
    -- Behind the quote stands the character.
    match hchars : Token.charsOf l.text, hlen with
    | _ :: c :: _, _ => rfl
    | [_], hlen => simp at hlen; omega
    | [], hlen => simp at hlen; omega
  | string =>
    simp only [hk] at h ⊢
    rw [slice_inner (hlen ▸ h)]
    rfl
  | _ => rfl

/-! ## Handing out tokens -/

/-- Where a text ends of which lexemes are left, when the one before them ends at `stop`. -/
def endOf : List (Lexeme × Position) → Position → Position
  | [], stop => stop
  | (l, p) :: pending, _ => endOf pending (l.endPosition p)

theorem endOf_append (skipped pending : List (Lexeme × Position)) (stop : Position) :
    endOf (skipped ++ pending) stop = endOf pending (endOf skipped stop) := by
  induction skipped generalizing stop with
  | nil => rfl
  | cons e skipped ih =>
    rw [List.cons_append, endOf, endOf, ih]

theorem kind_ne_endOfFile {e : Lexeme × Position} {t : Token}
    (h : TokenStream.tokenOf? e = some t) : t.kind ≠ .endOfFile := by
  obtain ⟨kind, hkind, rfl⟩ := Option.map_eq_some_iff.mp h
  intro (hend : kind = .endOfFile)
  subst hend
  unfold Token.Kind.ofLexeme? Token.numberKind at hkind
  simp only [] at hkind
  -- No class of lexemes means the end of the file.
  split at hkind <;> simp at hkind <;> split at hkind <;> cases hkind

/-- Lexemes that mean nothing are passed over. -/
theorem nextToken_append {skipped : List (Lexeme × Position)}
    (hcut : ∀ e ∈ skipped, Cuttable e.1) (hnone : ∀ e ∈ skipped, TokenStream.tokenOf? e = none)
    (pending : List (Lexeme × Position)) (stop : Position) :
    nextToken (skipped ++ pending) stop = nextToken pending (endOf skipped stop) := by
  induction skipped generalizing stop with
  | nil => rfl
  | cons e skipped ih =>
    have hkind := Option.map_eq_none_iff.mp (hnone e List.mem_cons_self)
    rw [List.cons_append, nextToken, kindOf?_eq (hcut e List.mem_cons_self), hkind, endOf]
    exact ih (fun x hx => hcut x (List.mem_cons_of_mem e hx))
      (fun x hx => hnone x (List.mem_cons_of_mem e hx)) _

/-- A text without tokens is at its end. -/
theorem nextToken_of_nil {pending : List (Lexeme × Position)} (hcut : ∀ e ∈ pending, Cuttable e.1)
    (h : pending.filterMap TokenStream.tokenOf? = []) (stop : Position) :
    nextToken pending stop =
      pure (Token.endOfFile (endOf pending stop), [], endOf pending stop) := by
  have hskip := nextToken_append hcut (List.filterMap_eq_nil_iff.mp h) [] stop
  rwa [List.append_nil] at hskip

/-- The first token of a text is handed out, unless it is a number that does not fit. -/
theorem nextToken_of_cons {pending : List (Lexeme × Position)} {t : Token} {rest : List Token}
    (hcut : ∀ e ∈ pending, Cuttable e.1)
    (h : pending.filterMap TokenStream.tokenOf? = t :: rest) (stop : Position) :
    ∃ pending' stop', pending'.filterMap TokenStream.tokenOf? = rest ∧
      (∀ e ∈ pending', Cuttable e.1) ∧ endOf pending' stop' = endOf pending stop ∧
      nextToken pending stop =
        if t.kind = .oversized then throw (tooLarge t) else pure (t, pending', stop') := by
  obtain ⟨skipped, ⟨l, p⟩, pending', rfl, hnone, htoken, hrest⟩ :=
    List.filterMap_eq_cons_iff.mp h
  obtain ⟨kind, hkind, rfl⟩ := Option.map_eq_some_iff.mp htoken
  have hskip : ∀ e ∈ skipped, Cuttable e.1 := fun e he => hcut e (List.mem_append_left _ he)
  refine ⟨pending', l.endPosition p, hrest, ?_, ?_, ?_⟩
  · exact fun e he => hcut e (List.mem_append_right _ (List.mem_cons_of_mem _ he))
  · rw [endOf_append, endOf]
  · have hl : Cuttable l := hcut (l, p) (List.mem_append_right _ List.mem_cons_self)
    rw [nextToken_append hskip hnone, nextToken, kindOf?_eq hl, hkind]
    rfl

/-! ## The tokens that are left -/

/-- The reader is at `ts`, behind which the file ends at `stop`. -/
structure Holds (stop : Position) (ts : List Token) (r : Reader) : Prop where
  cuttable : ∀ e ∈ r.pending, Cuttable e.1
  ends : endOf r.pending r.stop = stop
  proper : ∀ t ∈ ts, t.kind ≠ .endOfFile
  /-- The tokens that were looked at, and the ends of the file behind them. -/
  buffered : ∃ seen copies, r.buffer = seen ++ List.replicate copies (Token.endOfFile stop) ∧
    ts = seen ++ r.pending.filterMap TokenStream.tokenOf? ∧ (∀ t ∈ seen, Readable t.kind) ∧
    (copies ≠ 0 → r.pending = [])

/-! ## Looking at what is left -/

theorem fill_of_lt {r : Reader} {n fuel : Nat} (h : n < r.buffer.length) :
    fill n (fuel + 1) r = pure ((), r) := by
  have hstop : ¬ r.buffer.length ≤ n := by omega
  rw [fill]
  show ((if r.buffer.length ≤ n then _ else pure ()) : Reading Unit) r = _
  rw [if_neg hstop]
  rfl

theorem fill_of_le {r : Reader} {n fuel : Nat} (h : r.buffer.length ≤ n) :
    fill n (fuel + 1) r = fetch n r >>= fill n fuel := by
  rw [fill]
  show ((if r.buffer.length ≤ n then _ else pure ()) : Reading Unit) r = _
  rw [if_pos h]
  exact lift_bind (fetch n r) (fun r' => set r' >>= fun _ => fill n fuel) r

theorem lastToken_eq {r : Reader} {t : Token} (h : r.last = some t) :
    lastToken r = pure (t, r) := by
  show (present r.last >>= fun t => pure (t, r)) = _
  rw [h]
  rfl

/-- What comes of trying to take a token: it is left, or it is a wanted one and the last one that
was taken. -/
inductive Accepted {α : Type} (stop : Position) (want : Token → Option α) (r : Reader)
    {ts : List Token} : Option (α × Rest ts) → Option α → Reader → Prop
  | left {r' : Reader} (h : Holds stop ts r') (hlast : r'.last = r.last) :
    Accepted stop want r none none r'
  | taken {r' : Reader} {a : α} {rest : Rest ts} {t : Token} (h : Holds stop rest.1 r')
    (hlast : r'.last = some t) (hwant : want t = some a) :
    Accepted stop want r (some (a, rest)) (some a) r'

namespace Holds

variable {α : Type} {stop : Position} {ts : List Token} {r : Reader}

theorem start (source : Text) :
    Holds (TokenStream.ofText source).stop (TokenStream.ofText source).tokens (.start source) where
  cuttable := by
    intro e he
    have hmem := List.mem_map_of_mem (f := (·.1)) he
    rw [Reader.start, Token.map_fst_locate] at hmem
    exact cuttable_of_mem_scan hmem
  ends := by
    unfold Reader.start TokenStream.ofText
    dsimp only
    -- The file ends where its last lexeme ends.
    cases hlast : (locate { row := 1, col := 1 } (scan source)).getLast? with
    | none => rw [List.getLast?_eq_none_iff.mp hlast]; rfl
    | some e =>
      obtain ⟨before, hbefore⟩ := List.getLast?_eq_some_iff.mp hlast
      rw [hbefore, endOf_append]
      rfl
  proper := by
    intro t ht
    obtain ⟨e, -, he⟩ := List.mem_filterMap.mp ht
    exact kind_ne_endOfFile he
  buffered := ⟨[], 0, rfl, rfl, by simp, by simp⟩

/-- A loop may go round once for each token that is left, and once more. -/
theorem length_lt_rounds (h : Holds stop ts r) : ts.length < r.rounds := by
  obtain ⟨seen, copies, hbuffer, rfl, -, -⟩ := h.buffered
  -- Tokens are buffered or still to be made from a lexeme each.
  have hpending := List.length_filterMap_le TokenStream.tokenOf? r.pending
  rw [Reader.rounds, hbuffer, List.length_append, List.length_append]
  omega

/-- What is fetched is the token behind the buffer. -/
theorem fetch_follows (h : Holds stop ts r) :
    Follows (fun t r' => Holds stop ts r' ∧ r'.last = r.last ∧ r'.buffer = r.buffer ++ [t])
      (fetch r.buffer.length r) (Parser.peek stop (ts.drop r.buffer.length)) := by
  obtain ⟨seen, copies, hbuffer, hts, hseen, hcopies⟩ := h.buffered
  have hlen : r.buffer.length = seen.length + copies := by
    rw [hbuffer, List.length_append, List.length_replicate]
  unfold fetch
  cases hrest : r.pending.filterMap TokenStream.tokenOf? with
  | nil =>
    -- The text is at its end, which then stands in the buffer once more.
    have hdrop : ts.drop r.buffer.length = [] := by
      rw [hts, hrest, List.append_nil, List.drop_eq_nil_iff]
      omega
    rw [hdrop, nextToken_of_nil h.cuttable hrest, h.ends]
    refine .ok ⟨⟨by simp, rfl, h.proper, seen, copies + 1, ?_, ?_, hseen, fun _ => rfl⟩, rfl, ?_⟩
    · rw [hbuffer, List.append_assoc, List.replicate_succ']
      simp [Token.endOfFile]
    · rw [hts, hrest]
      rfl
    · simp [Token.endOfFile]
  | cons t rest =>
    -- Ends of the file are buffered only when no lexeme is left.
    have hzero : copies = 0 := by
      by_cases hz : copies = 0
      · exact hz
      · rw [hcopies hz] at hrest
        cases hrest
    have hdrop : ts.drop r.buffer.length = t :: rest := by
      rw [hts, hrest, hlen, hzero]
      exact List.drop_left
    obtain ⟨pending', stop', hrest', hcut', hends', hnext⟩ :=
      nextToken_of_cons h.cuttable hrest r.stop
    rw [hdrop, hnext]
    by_cases hbig : t.kind = .oversized
    · rw [if_pos hbig]
      have hlook : Parser.peek stop (t :: rest) = .error (tooLarge t) := by
        simp only [Parser.peek, look, hbig]
        rfl
      rw [hlook]
      exact .error _
    rw [if_neg hbig]
    by_cases hbad : t.kind = .invalid
    · have hlook : Parser.peek stop (t :: rest) = .error (faultAt .invalidToken t) := by
        simp only [Parser.peek, look, hbad]
      rw [hlook]
      show Follows _ (ite _ _ _) _
      rw [if_pos hbad]
      exact .error _
    have hproper : t.kind ≠ .endOfFile := by
      refine h.proper t ?_
      rw [hts, hrest]
      exact List.mem_append_right _ List.mem_cons_self
    rw [Parser.peek, look_of_readable ⟨hbad, hbig⟩]
    show Follows _ (ite _ _ _) _
    rw [if_neg hbad, if_neg hproper]
    refine .ok ⟨⟨hcut', hends'.trans h.ends, h.proper, seen ++ [t], 0, ?_, ?_, ?_, by simp⟩, rfl,
      rfl⟩
    · rw [hbuffer, hzero]
      simp
    · rw [hts, hrest, hrest', List.append_assoc]
      rfl
    · intro t' ht'
      rcases List.mem_append.mp ht' with ht' | ht'
      · exact hseen t' ht'
      · rw [List.mem_singleton.mp ht']
        exact ⟨hbad, hbig⟩

/-- The token at a position of the buffer is the one at that position of what is left. -/
theorem buffer_getElem? (h : Holds stop ts r) {n : Nat} (hn : n < r.buffer.length) :
    ∃ t, r.buffer[n]? = some t ∧ Parser.peek stop (ts.drop n) = .ok t := by
  obtain ⟨seen, copies, hbuffer, hts, hseen, hcopies⟩ := h.buffered
  -- A token that was looked at, or one of the ends of the file behind them.
  by_cases hlt : n < seen.length
  · refine ⟨seen[n], ?_, ?_⟩
    · rw [hbuffer, List.getElem?_append_left hlt, List.getElem?_eq_getElem hlt]
    · rw [hts, List.drop_append_of_le_length (by omega), List.drop_eq_getElem_cons hlt]
      exact look_of_readable (hseen _ (List.getElem_mem hlt))
  · have hlen : r.buffer.length = seen.length + copies := by
      rw [hbuffer, List.length_append, List.length_replicate]
    have hnil : ts.drop n = [] := by
      rw [hts, hcopies (by omega), List.filterMap_nil, List.append_nil, List.drop_eq_nil_iff]
      omega
    refine ⟨Token.endOfFile stop, ?_, by rw [hnil]; rfl⟩
    rw [hbuffer, List.getElem?_append_right (by omega), List.getElem?_replicate]
    exact if_pos (by omega)

/-- A position in the buffer, or right behind it, can be looked at. -/
theorem peek_reads (h : Holds stop ts r) {n : Nat} (hn : n ≤ r.buffer.length) :
    Reads (fun t a r' => a = t ∧ Holds stop ts r' ∧ n < r'.buffer.length ∧ r'.last = r.last)
      (peek n r) (Parser.peek stop (ts.drop n)) := by
  -- Once the buffer is long enough, its token is the one that is looked at.
  have hlook : ∀ fuel r', Holds stop ts r' → n < r'.buffer.length → r'.last = r.last →
      ∃ t, Parser.peek stop (ts.drop n) = .ok t ∧
        (fill n (fuel + 1) r' >>= fun x => item x.2.buffer n >>= fun t => pure (t, x.2)) =
          pure (t, r') := by
    intro fuel r' hr' hlt hlast
    obtain ⟨t, ht, hpeek⟩ := hr'.buffer_getElem? hlt
    refine ⟨t, hpeek, ?_⟩
    rw [fill_of_lt hlt]
    show (item r'.buffer n >>= fun t => pure (t, r')) = _
    rw [item_eq ht]
    rfl
  show Reads _ (fill n (n + 2) r >>= fun x => item x.2.buffer n >>= fun t => pure (t, x.2)) _
  rcases Nat.lt_or_eq_of_le hn with hlt | rfl
  · obtain ⟨t, hpeek, hrun⟩ := hlook (n + 1) r h hlt rfl
    rw [hpeek, hrun]
    exact .ok ⟨rfl, h, hlt, rfl⟩
  · -- One round of filling brings the token into the buffer.
    rw [fill_of_le (Nat.le_refl _)]
    have hfetch := h.fetch_follows
    generalize fetch r.buffer.length r = x at hfetch ⊢
    generalize hpeek : Parser.peek stop (ts.drop r.buffer.length) = y at hfetch ⊢
    cases hfetch with
    | error d => exact .error d
    | @ok r' t hr' =>
      obtain ⟨hr', hlast, hbuffer⟩ := hr'
      have hlt : r.buffer.length < r'.buffer.length := by
        rw [hbuffer, List.length_append, List.length_singleton]
        omega
      obtain ⟨t', hpeek', hrun⟩ := hlook r.buffer.length r' hr' hlt hlast
      obtain rfl := Except.ok.inj (hpeek.symm.trans hpeek')
      show Reads _ (fill r.buffer.length (r.buffer.length + 1) r' >>= fun x =>
        item x.2.buffer r.buffer.length >>= fun t => pure (t, x.2)) _
      rw [hrun]
      exact .ok ⟨rfl, hr', hlt, hlast⟩

/-- The first token that is left is taken, and it is then the last one that was taken. -/
theorem next_reads {t : Token} {rest : List Token} (h : Holds stop (t :: rest) r) :
    Reads (fun t' a r' => a = t' ∧ Holds stop rest r' ∧ r'.last = some t') (next r) (look t) := by
  rw [← bind_pure (look t)]
  refine (h.peek_reads (Nat.zero_le _)).bind fun t' a r' hlook hr' => ?_
  obtain ⟨rfl, hr', hlt, -⟩ := hr'
  obtain ⟨-, rfl⟩ := look_eq_ok_iff.mp hlook
  have hproper : a.kind ≠ .endOfFile := h.proper a List.mem_cons_self
  obtain ⟨seen, copies, hbuffer, hts, hseen, hcopies⟩ := hr'.buffered
  cases seen with
  | nil =>
    -- Only ends of the file in the buffer: then nothing would be left.
    rw [hbuffer, List.nil_append, List.length_replicate] at hlt
    rw [hcopies (by omega)] at hts
    cases hts
  | cons first seen =>
    obtain ⟨rfl, hrest⟩ := List.cons.inj hts
    show Reads _ ((if a.kind ≠ .endOfFile then _ else _ : Reading Token) r') _
    rw [if_pos hproper, get_bind, lift_bind, slice_tail hlt]
    refine .ok ⟨rfl, ⟨hr'.cuttable, hr'.ends, ?_, seen, copies, ?_, hrest, ?_, hcopies⟩, rfl⟩
    · exact fun t ht => h.proper t (List.mem_cons_of_mem a ht)
    · rw [hbuffer]
      rfl
    · exact fun t ht => hseen t (List.mem_cons_of_mem a ht)

/-- A token that can be read can be taken. -/
theorem take {t : Token} {rest : List Token} (h : Holds stop (t :: rest) r)
    (ht : Readable t.kind) :
    ∃ r', next r = pure (t, r') ∧ Holds stop rest r' ∧ r'.last = some t := by
  have hnext := h.next_reads
  rw [look_of_readable ht] at hnext
  generalize next r = x at hnext ⊢
  cases hnext with
  | @ok x _ hx =>
    obtain ⟨rfl, hr, hlast⟩ := hx
    exact ⟨x.2, rfl, hr, hlast⟩

/-- A wanted token is taken, and any other one is left where it is. -/
theorem accept_reads (h : Holds stop ts r) {want : Token → Option α}
    (hend : want (Token.endOfFile stop) = none) :
    Reads (Accepted stop want r) (accept want r) (Parser.accept want ts) := by
  cases ts with
  | nil =>
    refine (h.peek_reads (Nat.zero_le _)).bind (g := fun _ => .ok none) fun t a r' ht hr' => ?_
    obtain ⟨rfl, hr', -, hlast⟩ := hr'
    obtain rfl := Except.ok.inj ht
    rw [hend]
    exact .ok (.left hr' hlast)
  | cons t rest =>
    refine (h.peek_reads (Nat.zero_le _)).bind fun t' a r' ht hr' => ?_
    obtain ⟨rfl, hr', -, hlast⟩ := hr'
    obtain ⟨hreadable, rfl⟩ := look_eq_ok_iff.mp ht
    cases hwant : want a with
    | none => exact .ok (.left hr' hlast)
    | some found =>
      -- The token is asked for again after it was taken; it is still the same.
      obtain ⟨r'', hnext, hr'', hlast''⟩ := hr'.take hreadable
      dsimp only
      rw [read_eq hnext, read_eq (lastToken_eq hlast''), hwant]
      exact .ok (.taken hr'' hlast'' hwant)

end Holds

end Keyplan.Guarded
