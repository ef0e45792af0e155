import Keyplan.Proofs.Grammar.Soundness

/-!
# Completeness — what has a derivation is read

In front of tokens that a derivation gives, the reader of its rule succeeds and stops where the
derivation stops (`Leaves`). What it makes of the tokens needs no second look: by soundness it is
the tree of a derivation, and there is only one. The tokens behind a derivation have to be
readable, because readers look ahead.
-/

namespace Keyplan.Parser

open Outcome
open Token (Kind)

def AllReadable (ks : List Kind) : Prop :=
  ∀ k ∈ ks, Readable k

theorem allReadable_cons {k : Kind} {ks : List Kind} :
    AllReadable (k :: ks) ↔ Readable k ∧ AllReadable ks :=
  List.forall_mem_cons

theorem allReadable_append {ks ks' : List Kind} :
    AllReadable (ks ++ ks') ↔ AllReadable ks ∧ AllReadable ks' :=
  List.forall_mem_append

theorem kinds_eq_cons {ts : List Token} {k : Kind} {ks : List Kind} (h : kinds ts = k :: ks) :
    ∃ t rest, ts = t :: rest ∧ t.kind = k ∧ kinds rest = ks :=
  List.map_eq_cons_iff.mp h

/-! ## Derived tokens are readable -/

theorem allReadable_flatMap {X : Type} {derived : X → List Kind}
    (h : ∀ x, AllReadable (derived x)) (xs : List X) : AllReadable (xs.flatMap derived) := by
  intro k hk
  obtain ⟨x, -, hx⟩ := List.mem_flatMap.mp hk
  exact h x k hx

theorem plainKey_readable (x : Grammar.PlainKey) : AllReadable x.kinds := by
  cases x <;> simp [AllReadable, Grammar.PlainKey.kinds, Readable]

theorem key_readable (x : Grammar.Key) : AllReadable x.kinds := by
  obtain ⟨tap, hold⟩ := x
  refine allReadable_append.mpr ⟨plainKey_readable tap, ?_⟩
  cases hold with
  | none => simp [AllReadable]
  | some h =>
    obtain ⟨style, held, timeout⟩ := h
    refine allReadable_append.mpr ⟨allReadable_cons.mpr ⟨?_, plainKey_readable held⟩, ?_⟩
    · cases style <;> simp [Readable, Grammar.styleKind]
    · cases timeout <;> simp [AllReadable, Grammar.timeoutKinds, Readable]

theorem itemRow_readable (x : Grammar.Row Grammar.Item) :
    AllReadable (x.kinds Grammar.Item.kinds) := by
  refine allReadable_append.mpr ⟨allReadable_flatMap ?_ x.items, by simp [AllReadable, Readable]⟩
  rintro (k | k)
  · exact key_readable k
  · refine allReadable_append.mpr ⟨allReadable_cons.mpr ⟨?_, key_readable k⟩, ?_⟩
    · simp [Readable]
    · simp [AllReadable, Readable]

theorem braced_readable {X : Type} {derived : X → List Kind} (h : ∀ x, AllReadable (derived x))
    (xs : List X) : AllReadable (Grammar.braced derived xs) := by
  refine allReadable_append.mpr ⟨allReadable_cons.mpr ⟨?_, allReadable_flatMap h xs⟩, ?_⟩
  · simp [Readable]
  · simp [AllReadable, Readable]

theorem block_readable (x : Grammar.Block) : AllReadable x.kinds := by
  cases x with
  | layout rows =>
    refine allReadable_cons.mpr ⟨by simp [Readable], braced_readable (fun row => ?_) rows⟩
    refine allReadable_append.mpr ⟨allReadable_flatMap ?_ row.items, ?_⟩
    · rintro (n | n | n) <;> simp [AllReadable, Grammar.Cell.kinds, Readable]
    · simp [AllReadable, Readable]
  | options backend lines =>
    refine allReadable_cons.mpr ⟨by simp [Readable], allReadable_cons.mpr ⟨by simp [Readable], ?_⟩⟩
    exact braced_readable (fun x => by simp [AllReadable, Grammar.OptionLine.kinds, Readable]) lines
  | key name lines =>
    refine allReadable_cons.mpr ⟨by simp [Readable], allReadable_cons.mpr ⟨by simp [Readable], ?_⟩⟩
    exact braced_readable (fun x => by simp [AllReadable, Grammar.OutLine.kinds, Readable]) lines
  | layer name rows =>
    refine allReadable_cons.mpr ⟨by simp [Readable], allReadable_cons.mpr ⟨by simp [Readable], ?_⟩⟩
    exact braced_readable itemRow_readable rows

theorem file_readable (f : Grammar.File) : AllReadable f.kinds :=
  allReadable_flatMap block_readable f

/-! ## Successes -/

/-- The outcome of a reader that succeeds and leaves the tokens `ks`. -/
def Leaves {α : Type} {ts : List Token} (o : Outcome α ts) (ks : List Kind) : Prop :=
  ∃ a r, o = .ok (a, r) ∧ kinds r.1 = ks

theorem Leaves.pure {α : Type} {ts : List Token} {a : α} {r : Rest ts} {ks : List Kind}
    (h : kinds r.1 = ks) : Leaves (Pure.pure (a, r)) ks :=
  ⟨a, r, rfl, h⟩

theorem Leaves.bind {α β : Type} {ts us : List Token} {o : Outcome α ts}
    {f : α × Rest ts → Outcome β us} {ks ks' : List Kind} (h : Leaves o ks)
    (hf : ∀ a r, kinds r.1 = ks → Leaves (f (a, r)) ks') : Leaves (o >>= f) ks' := by
  obtain ⟨a, r, rfl, hr⟩ := h
  exact hf a r hr

/-! ## Looking at tokens -/

theorem accept_complete {α : Type} (want : Token → Option α) {ts : List Token} {k : Kind}
    {ks : List Kind} (hts : kinds ts = k :: ks) (hk : Readable k)
    (hwant : ∀ t : Token, t.kind = k → ∃ a, want t = some a) :
    ∃ a r, accept want ts = .ok (some (a, r)) ∧ kinds r.1 = ks := by
  obtain ⟨t, rest, rfl, rfl, rfl⟩ := kinds_eq_cons hts
  obtain ⟨a, ha⟩ := hwant t rfl
  exact ⟨a, Rest.tail, accept_eq_some_iff.mpr ⟨t, rfl, hk, ha⟩, rfl⟩

/-- Nothing is taken when the next token is no wanted one. -/
theorem accept_refuses {α : Type} {want : Token → Option α} {ts : List Token}
    (hread : AllReadable (kinds ts))
    (hwant : ∀ (t : Token) (ks : List Kind), kinds ts = t.kind :: ks → want t = none) :
    accept want ts = .ok none := by
  cases ts with
  | nil => rfl
  | cons t rest =>
    rw [kinds_cons, allReadable_cons] at hread
    exact accept_eq_none_iff.mpr (.inr ⟨t, rest, rfl, hread.1, hwant t _ rfl⟩)

theorem expect_complete {α : Type} (stop : Position) (want : Token → Option α)
    (fault : SyntaxFault) (labels : List Label) {ts : List Token} {k : Kind} {ks : List Kind}
    (hts : kinds ts = k :: ks) (hk : Readable k)
    (hwant : ∀ t : Token, t.kind = k → ∃ a, want t = some a) :
    Leaves (expect stop want fault ts labels) ks := by
  obtain ⟨a, r, h, hr⟩ := accept_complete want hts hk hwant
  exact ⟨a, r, expect_eq_ok_iff.mpr (accept_eq_some_iff.mp h), hr⟩

theorem expect_identifier (stop : Position) (fault : SyntaxFault) {ts : List Token}
    {name : String} {ks : List Kind} (hts : kinds ts = .identifier name :: ks) :
    Leaves (expect stop identifier? fault ts) ks :=
  expect_complete stop identifier? fault [] hts (by simp [Readable])
    fun t ht => ⟨(name, t.span), identifier?_eq_some_iff.mpr ⟨ht, rfl⟩⟩

theorem expect_symbol (stop : Position) {s : Symbol} (fault : SyntaxFault) (labels : List Label)
    {ts : List Token} {ks : List Kind} (hts : kinds ts = .symbol s :: ks) :
    Leaves (expect stop (symbol? s) fault ts labels) ks :=
  expect_complete stop (symbol? s) fault labels hts (by simp [Readable])
    fun t ht => ⟨t.span, symbol?_eq_some_iff.mpr ⟨ht, rfl⟩⟩

/-! ## Blocks in general -/

/-- The parts of a block are read one after the other, when each part is read in front of what
follows it and starts with a token that does not end the block. -/
theorem body_complete {α X : Type} {derived : X → List Kind} (stop : Position) (keyword : Span)
    {part : (ts : List Token) → Outcome α ts}
    (hpart : ∀ (x : X) ts ks, kinds ts = derived x ++ ks → AllReadable ks → Leaves (part ts) ks)
    (hstart : ∀ (x : X), ∃ k ks, derived x = k :: ks ∧ k ≠ .symbol .closeBrace ∧
      k ≠ .endOfFile ∧ Readable k)
    (xs : List X) {ts : List Token} {ks : List Kind}
    (hts : kinds ts = xs.flatMap derived ++ .symbol .closeBrace :: ks)
    (hread : AllReadable (kinds ts)) : Leaves (body stop keyword part ts) ks := by
  -- On the derived parts, not on the tokens: each part is read in front of the next one.
  induction xs generalizing ts with
  | nil =>
    obtain ⟨close, r, haccept, hr⟩ := accept_complete (symbol? .closeBrace) hts
      (by simp [Readable]) fun t ht => ⟨t.span, symbol?_eq_some_iff.mpr ⟨ht, rfl⟩⟩
    rw [body, haccept]
    exact Leaves.pure hr
  | cons x xs ih =>
    rw [List.flatMap_cons, List.append_assoc] at hts
    have hrest : AllReadable (xs.flatMap derived ++ .symbol .closeBrace :: ks) := by
      rw [hts, allReadable_append] at hread
      exact hread.2
    have hfirst := hpart x ts _ hts hrest
    obtain ⟨k, ks', hx, hclose, heof, hk⟩ := hstart x
    rw [hx, List.cons_append] at hts
    obtain ⟨t, rest, rfl, rfl, -⟩ := kinds_eq_cons hts
    -- The part starts with no closing brace, so the block goes on.
    have haccept : accept (symbol? .closeBrace) (t :: rest) = .ok none :=
      accept_eq_none_iff.mpr (.inr ⟨t, rest, rfl, hk, if_neg hclose⟩)
    rw [body, haccept]
    simp only [ok_bind, peek, look_of_readable hk, if_neg heof]
    refine hfirst.bind fun first r₁ hr₁ => ?_
    refine (ih hr₁ (hr₁ ▸ hrest)).bind fun others r₂ hr₂ => ?_
    exact Leaves.pure hr₂

theorem openBlock_complete (stop : Position) (keyword : Span) {ts : List Token} {ks : List Kind}
    (hts : kinds ts = .symbol .openBrace :: ks) : Leaves (openBlock stop keyword ts) ks :=
  expect_symbol stop .noOpenBrace [blockLabel keyword] hts

theorem value_complete (stop : Position) {ts : List Token} {contents : String} {ks : List Kind}
    (hts : kinds ts = .symbol .colon :: .string contents :: ks) : Leaves (value stop ts) ks := by
  rw [value]
  refine (expect_symbol stop .noColon [] hts).bind fun colon r₁ hr₁ => ?_
  refine (expect_complete stop string? .noString [] hr₁ (by simp [Readable]) fun t ht =>
    ⟨(contents, t.span), string?_eq_some_iff.mpr ⟨ht, rfl⟩⟩).bind fun found r₂ hr₂ => ?_
  exact Leaves.pure hr₂

theorem semicolon_complete (previous : Span) {ts : List Token} {ks : List Kind}
    (hts : kinds ts = .symbol .semicolon :: ks) : Leaves (semicolon previous ts) ks := by
  obtain ⟨span, r, haccept, hr⟩ := accept_complete (symbol? .semicolon) hts (by simp [Readable])
    fun t ht => ⟨t.span, symbol?_eq_some_iff.mpr ⟨ht, rfl⟩⟩
  rw [semicolon, haccept]
  exact Leaves.pure hr

theorem bracketed_complete {α : Type} (stop : Position) (want : Token → Option (α × Span))
    (fault : SyntaxFault) {ts : List Token} {k : Kind} {ks : List Kind}
    (hts : kinds ts = k :: .symbol .closeBracket :: ks) (hk : Readable k)
    (hwant : ∀ t : Token, t.kind = k → ∃ a, want t = some a) :
    Leaves (bracketed stop want fault ts) ks := by
  rw [bracketed]
  refine (expect_complete stop want fault [] hts hk hwant).bind fun found r₁ hr₁ => ?_
  refine (expect_symbol stop .unclosedBracket [] hr₁).bind fun close r₂ hr₂ => ?_
  exact Leaves.pure hr₂

/-! ## Layout -/

theorem layoutItems_complete (stop : Position) (last : Option Span) (cells : List Grammar.Cell)
    {ts : List Token} {ks : List Kind}
    (hts : kinds ts = cells.flatMap Grammar.Cell.kinds ++ .symbol .semicolon :: ks)
    (hlast : cells = [] → last ≠ none) : Leaves (layoutItems stop last ts) ks := by
  induction cells generalizing last ts with
  | nil =>
    obtain ⟨t, rest, rfl, hk, hrest⟩ := kinds_eq_cons hts
    obtain ⟨span, hspan⟩ := Option.ne_none_iff_exists'.mp (hlast rfl)
    rw [layoutItems, look_of_readable (by simp [Readable, hk])]
    simp only [ok_bind, hk, hspan]
    exact Leaves.pure hrest
  | cons c cells ih =>
    rw [List.flatMap_cons, List.append_assoc] at hts
    cases c with
    | keys n =>
      obtain ⟨t, rest, rfl, hk, hrest⟩ := kinds_eq_cons hts
      rw [layoutItems, look_of_readable (by simp [Readable, hk])]
      simp only [ok_bind, hk]
      exact (ih _ hrest (by simp)).bind fun found r hr => Leaves.pure hr
    | spaces n =>
      obtain ⟨t, rest, rfl, hk, hrest⟩ := kinds_eq_cons hts
      rw [layoutItems, look_of_readable (by simp [Readable, hk])]
      simp only [ok_bind, hk]
      exact (ih _ hrest (by simp)).bind fun found r hr => Leaves.pure hr
    | remap n =>
      obtain ⟨t, rest, rfl, hk, hrest⟩ := kinds_eq_cons hts
      rw [layoutItems, look_of_readable (by simp [Readable, hk])]
      simp only [ok_bind, hk]
      refine (bracketed_complete stop integer? .noRemapColumn hrest (by simp [Readable])
        fun t ht => ⟨(n, t.span), integer?_eq_some_iff.mpr ⟨ht, rfl⟩⟩).bind fun column r₁ hr₁ => ?_
      exact (ih _ hr₁ (by simp)).bind fun found r₂ hr₂ => Leaves.pure hr₂

theorem layoutRow_complete (stop : Position) (x : Grammar.Row Grammar.Cell) (ts : List Token)
    (ks : List Kind) (hts : kinds ts = x.kinds Grammar.Cell.kinds ++ ks) :
    Leaves (layoutRow stop ts) ks := by
  rw [Grammar.Row.kinds, List.append_assoc] at hts
  rw [layoutRow]
  exact (layoutItems_complete stop none x.items hts (by simp [Grammar.Row.items])).bind
    fun found r hr => Leaves.pure hr

theorem braced_append {X : Type} (derived : X → List Kind) (xs : List X) (ks : List Kind) :
    Grammar.braced derived xs ++ ks =
      .symbol .openBrace :: (xs.flatMap derived ++ .symbol .closeBrace :: ks) := by
  simp [Grammar.braced]

theorem layoutBlock_complete (stop : Position) (keyword : Span)
    (rows : List (Grammar.Row Grammar.Cell)) {ts : List Token} {ks : List Kind}
    (hts : kinds ts = Grammar.braced (Grammar.Row.kinds Grammar.Cell.kinds) rows ++ ks)
    (hread : AllReadable (kinds ts)) : Leaves (layoutBlock stop keyword ts) ks := by
  rw [braced_append] at hts
  rw [hts, allReadable_cons] at hread
  rw [layoutBlock]
  refine (openBlock_complete stop keyword hts).bind fun span r₁ hr₁ => ?_
  refine (body_complete stop keyword (fun x ts ks hts _ => layoutRow_complete stop x ts ks hts)
    ?_ rows hr₁ (hr₁ ▸ hread.2)).bind fun found r₂ hr₂ => Leaves.pure hr₂
  rintro ⟨first, others⟩
  cases first <;> simp [Grammar.Row.kinds, Grammar.Row.items, Grammar.Cell.kinds, Readable]

/-! ## Options and key declarations -/

theorem optionLine_complete (stop : Position) (x : Grammar.OptionLine) (ts : List Token)
    (ks : List Kind) (hts : kinds ts = x.kinds ++ ks) : Leaves (optionLine stop ts) ks := by
  rw [optionLine]
  refine (expect_identifier stop .noOptionName hts).bind fun name r₁ hr₁ => ?_
  refine (value_complete stop hr₁).bind fun contents r₂ hr₂ => ?_
  refine (semicolon_complete _ hr₂).bind fun semi r₃ hr₃ => ?_
  exact Leaves.pure hr₃

theorem optionsBlock_complete (stop : Position) (keyword : Span) (backend : String)
    (lines : List Grammar.OptionLine) {ts : List Token} {ks : List Kind}
    (hts : kinds ts = .identifier backend :: Grammar.braced Grammar.OptionLine.kinds lines ++ ks)
    (hread : AllReadable (kinds ts)) : Leaves (optionsBlock stop keyword ts) ks := by
  rw [List.cons_append, braced_append] at hts
  rw [hts, allReadable_cons, allReadable_cons] at hread
  rw [optionsBlock]
  refine (expect_identifier stop .noBackend hts).bind fun backend' r₁ hr₁ => ?_
  refine (openBlock_complete stop keyword hr₁).bind fun span r₂ hr₂ => ?_
  refine (body_complete stop keyword (fun x ts ks hts _ => optionLine_complete stop x ts ks hts)
    ?_ lines hr₂ (hr₂ ▸ hread.2.2)).bind fun found r₃ hr₃ => Leaves.pure hr₃
  intro x
  simp [Grammar.OptionLine.kinds, Readable]

theorem keyOutput_complete (stop : Position) (x : Grammar.OutLine) (ts : List Token)
    (ks : List Kind) (hts : kinds ts = x.kinds ++ ks) : Leaves (keyOutput stop ts) ks := by
  rw [keyOutput]
  refine (expect_complete stop out? .noOut [] hts (by simp [Readable]) fun t ht =>
    ⟨t.span, out?_eq_some_iff.mpr ⟨ht, rfl⟩⟩).bind fun word r₁ hr₁ => ?_
  refine (expect_identifier stop .noBackend hr₁).bind fun backend r₂ hr₂ => ?_
  refine (value_complete stop hr₂).bind fun contents r₃ hr₃ => ?_
  refine (semicolon_complete _ hr₃).bind fun semi r₄ hr₄ => ?_
  exact Leaves.pure hr₄

theorem keyDeclaration_complete (stop : Position) (keyword : Span) (name : String)
    (lines : List Grammar.OutLine) {ts : List Token} {ks : List Kind}
    (hts : kinds ts = .identifier name :: Grammar.braced Grammar.OutLine.kinds lines ++ ks)
    (hread : AllReadable (kinds ts)) : Leaves (keyDeclaration stop keyword ts) ks := by
  rw [List.cons_append, braced_append] at hts
  rw [hts, allReadable_cons, allReadable_cons] at hread
  rw [keyDeclaration]
  refine (expect_identifier stop .noKeyName hts).bind fun name' r₁ hr₁ => ?_
  refine (openBlock_complete stop keyword hr₁).bind fun span r₂ hr₂ => ?_
  refine (body_complete stop keyword (fun x ts ks hts _ => keyOutput_complete stop x ts ks hts)
    ?_ lines hr₂ (hr₂ ▸ hread.2.2)).bind fun found r₃ hr₃ => Leaves.pure hr₃
  intro x
  simp [Grammar.OutLine.kinds, Readable]

/-! ## Layers -/

theorem plainKey_complete (stop : Position) (x : Grammar.PlainKey) {ts : List Token}
    {ks : List Kind} (hts : kinds ts = x.kinds ++ ks) : Leaves (plainKey stop ts) ks := by
  cases x with
  | named name =>
    obtain ⟨t, rest, rfl, hk, hrest⟩ := kinds_eq_cons hts
    rw [plainKey, look_of_readable (by simp [Readable, hk]), ok_bind]
    simp only [hk]
    exact Leaves.pure hrest
  | character c =>
    obtain ⟨t, rest, rfl, hk, hrest⟩ := kinds_eq_cons hts
    rw [plainKey, look_of_readable (by simp [Readable, hk]), ok_bind]
    simp only [hk]
    exact Leaves.pure hrest
  | string c =>
    obtain ⟨t, rest, rfl, hk, hrest⟩ := kinds_eq_cons hts
    rw [plainKey, look_of_readable (by simp [Readable, hk]), ok_bind]
    simp only [hk, String.toList_singleton]
    exact Leaves.pure hrest
  | layer name =>
    obtain ⟨t, rest, rfl, hk, hrest⟩ := kinds_eq_cons hts
    rw [plainKey, look_of_readable (by simp [Readable, hk]), ok_bind]
    simp only [hk]
    exact (bracketed_complete stop identifier? .noLayerName hrest (by simp [Readable])
      fun t ht => ⟨(name, t.span), identifier?_eq_some_iff.mpr ⟨ht, rfl⟩⟩).bind
      fun found r hr => Leaves.pure hr

theorem timeout_complete (stop : Position) {ts : List Token} {n : Nat} {ks : List Kind}
    (hts : kinds ts = .symbol .openBracket :: .integer n :: .symbol .closeBracket :: ks) :
    ∃ a r, timeout stop ts = .ok (some (a, r)) ∧ kinds r.1 = ks := by
  obtain ⟨t, rest, rfl, hk, hrest⟩ := kinds_eq_cons hts
  obtain ⟨⟨m, span⟩, r₁, h₁, hr₁⟩ := accept_complete integer? hrest (by simp [Readable])
    fun t ht => ⟨(n, t.span), integer?_eq_some_iff.mpr ⟨ht, rfl⟩⟩
  obtain ⟨close, r₂, h₂, hr₂⟩ := expect_symbol stop .unclosedBracket [] hr₁
  refine ⟨(m, close), (r₁.after r₂).behind, ?_, hr₂⟩
  rw [timeout, look_of_readable (by simp [Readable, hk])]
  simp only [ok_bind, hk, if_true, h₁, h₂]
  rfl

/-- No timeout is read where none continues the key. -/
theorem timeout_refuses (stop : Position) {ts : List Token} (hread : AllReadable (kinds ts))
    (hend : ¬ Grammar.ContinuesKey (kinds ts)) : timeout stop ts = .ok none := by
  cases ts with
  | nil => rfl
  | cons t rest =>
    rw [kinds_cons, allReadable_cons] at hread
    rw [timeout, look_of_readable hread.1]
    simp only [ok_bind]
    split
    · rename_i hk
      -- A number behind the bracket would continue the key.
      have hnone : accept integer? rest = .ok none := by
        refine accept_refuses hread.2 fun u ks hrest => ?_
        rw [kinds_cons, hk, hrest] at hend
        cases hu : integer? u with
        | none => rfl
        | some p =>
          rw [(integer?_eq_some_iff.mp hu).1] at hend
          exact absurd trivial hend
      rw [hnone]
      rfl
    · rfl

theorem key_complete (stop : Position) (x : Grammar.Key) {ts : List Token} {ks : List Kind}
    (hts : kinds ts = x.kinds ++ ks) (hread : AllReadable ks)
    (hend : ¬ Grammar.ContinuesKey ks) : Leaves (key stop ts) ks := by
  obtain ⟨tap, hold⟩ := x
  simp only [Grammar.Key.kinds, List.append_assoc] at hts
  rw [key]
  refine (plainKey_complete stop tap hts).bind fun tap' r₁ hr₁ => ?_
  cases hold with
  | none =>
    -- Each style of holding continues a key, so none of them follows.
    have hnone : accept holdStyle? r₁.1 = .ok none := by
      refine accept_refuses (hr₁ ▸ hread) fun t ks' ht => ?_
      cases hs : holdStyle? t with
      | none => rfl
      | some style =>
        rw [hr₁, holdStyle?_eq_some_iff.mp hs] at ht
        simp only [Option.map_none, Option.getD_none, List.nil_append] at ht
        rw [ht] at hend
        cases style <;> exact absurd trivial hend
    simp only [hnone, ok_bind]
    exact Leaves.pure hr₁
  | some h =>
    obtain ⟨style, held, n⟩ := h
    simp only [Option.map_some, Option.getD_some, Grammar.Hold.kinds, List.cons_append,
      List.append_assoc] at hr₁
    obtain ⟨style', r₂, h₂, hr₂⟩ := accept_complete holdStyle? hr₁
      (by cases style <;> simp [Readable, Grammar.styleKind])
      fun t ht => ⟨style, holdStyle?_eq_some_iff.mpr ht⟩
    simp only [h₂, ok_bind]
    refine (plainKey_complete stop held hr₂).bind fun held' r₃ hr₃ => ?_
    cases n with
    | none =>
      simp only [Grammar.timeoutKinds, List.nil_append] at hr₃
      simp only [timeout_refuses stop (hr₃ ▸ hread) (hr₃ ▸ hend), ok_bind]
      exact Leaves.pure hr₃
    | some n =>
      obtain ⟨found, r₄, h₄, hr₄⟩ := timeout_complete stop hr₃
      simp only [h₄, ok_bind]
      exact Leaves.pure hr₄

theorem chord_complete (stop : Position) (start : Span) (x : Grammar.Key) {ts : List Token}
    {ks : List Kind} (hts : kinds ts = x.kinds ++ .symbol .chordClose :: ks)
    (hread : AllReadable ks) : Leaves (chord stop start ts) ks := by
  rw [chord]
  refine (key_complete stop x hts (allReadable_cons.mpr ⟨by simp [Readable], hread⟩)
    (by simp [Grammar.ContinuesKey])).bind fun k r₁ hr₁ => ?_
  refine (expect_symbol stop .unclosedChord _ hr₁).bind fun close r₂ hr₂ => ?_
  exact Leaves.pure hr₂

theorem not_continuesKey_items (xs : List Grammar.Item) (ks : List Kind) :
    ¬ Grammar.ContinuesKey (xs.flatMap Grammar.Item.kinds ++ .symbol .semicolon :: ks) := by
  cases xs with
  | nil => simp [Grammar.ContinuesKey]
  | cons x xs =>
    rw [List.flatMap_cons, List.append_assoc]
    exact x.not_continuesKey _

/-- A token that starts a plain key starts a key of a row. -/
theorem rowItems_of_plain (stop : Position) (last : Option Span) {t : Token} {rest : List Token}
    {x : Grammar.PlainKey} {ks : List Kind} (hts : kinds (t :: rest) = x.kinds ++ ks) :
    rowItems stop last (t :: rest) = (do
      let (k, r₁) ← key stop (t :: rest)
      let ((items, semi), r₂) ← rowItems stop (some k.span) r₁.1
      return ((.key k :: items, semi), r₁.after r₂)) := by
  rw [rowItems]
  cases x <;> (
    simp only [Grammar.PlainKey.kinds, kinds_cons, List.cons_append, List.cons.injEq] at hts
    simp only [look_of_readable (show Readable t.kind by simp [Readable, hts.1]), ok_bind, hts.1])

theorem rowItems_complete (stop : Position) (last : Option Span) (xs : List Grammar.Item)
    {ts : List Token} {ks : List Kind}
    (hts : kinds ts = xs.flatMap Grammar.Item.kinds ++ .symbol .semicolon :: ks)
    (hread : AllReadable (kinds ts)) (hlast : xs = [] → last ≠ none) :
    Leaves (rowItems stop last ts) ks := by
  induction xs generalizing last ts with
  | nil =>
    obtain ⟨t, rest, rfl, hk, hrest⟩ := kinds_eq_cons hts
    obtain ⟨span, hspan⟩ := Option.ne_none_iff_exists'.mp (hlast rfl)
    rw [rowItems, look_of_readable (by simp [Readable, hk])]
    simp only [ok_bind, hk, hspan]
    exact Leaves.pure hrest
  | cons x xs ih =>
    rw [List.flatMap_cons, List.append_assoc] at hts
    have hrest := (allReadable_append.mp (hts ▸ hread)).2
    -- The key of this item must end where its derivation ends.
    have hend := not_continuesKey_items xs ks
    cases x with
    | chord k =>
      simp only [Grammar.Item.kinds, List.cons_append, List.append_assoc] at hts
      obtain ⟨t, rest, rfl, hk, hts'⟩ := kinds_eq_cons hts
      rw [rowItems, look_of_readable (by simp [Readable, hk])]
      simp only [ok_bind, hk]
      refine (chord_complete stop t.span k hts' hrest).bind fun c r₁ hr₁ => ?_
      exact (ih _ hr₁ (hr₁ ▸ hrest) (by simp)).bind fun found r₂ hr₂ => Leaves.pure hr₂
    | key k =>
      have hkey := key_complete stop k hts hrest hend
      cases ts with
      -- A key has at least one token.
      | nil =>
        obtain ⟨tap, hold⟩ := k
        cases tap <;> simp [Grammar.Item.kinds, Grammar.Key.kinds, Grammar.PlainKey.kinds] at hts
      | cons t rest =>
        simp only [Grammar.Item.kinds, Grammar.Key.kinds, List.append_assoc] at hts
        rw [rowItems_of_plain stop last hts]
        refine hkey.bind fun k' r₁ hr₁ => ?_
        exact (ih _ hr₁ (hr₁ ▸ hrest) (by simp)).bind fun found r₂ hr₂ => Leaves.pure hr₂

theorem layerRow_complete (stop : Position) (x : Grammar.Row Grammar.Item) (ts : List Token)
    (ks : List Kind) (hts : kinds ts = x.kinds Grammar.Item.kinds ++ ks)
    (hread : AllReadable (kinds ts)) : Leaves (layerRow stop ts) ks := by
  rw [Grammar.Row.kinds, List.append_assoc] at hts
  rw [layerRow]
  exact (rowItems_complete stop none x.items hts hread (by simp [Grammar.Row.items])).bind
    fun found r hr => Leaves.pure hr

theorem layerBlock_complete (stop : Position) (keyword : Span) (name : String)
    (rows : List (Grammar.Row Grammar.Item)) {ts : List Token} {ks : List Kind}
    (hts : kinds ts = .identifier name ::
      Grammar.braced (Grammar.Row.kinds Grammar.Item.kinds) rows ++ ks)
    (hread : AllReadable (kinds ts)) : Leaves (layerBlock stop keyword ts) ks := by
  rw [List.cons_append, braced_append] at hts
  rw [hts, allReadable_cons, allReadable_cons] at hread
  rw [layerBlock]
  refine (expect_identifier stop .noLayerName hts).bind fun name' r₁ hr₁ => ?_
  refine (openBlock_complete stop keyword hr₁).bind fun span r₂ hr₂ => ?_
  refine (body_complete stop keyword (fun x ts ks hts hks => layerRow_complete stop x ts ks hts ?_)
    ?_ rows hr₂ (hr₂ ▸ hread.2.2)).bind fun found r₃ hr₃ => Leaves.pure hr₃
  · rw [hts]
    exact allReadable_append.mpr ⟨itemRow_readable x, hks⟩
  -- The first token of a row never closes the block.
  · rintro ⟨first | k, others⟩
    · obtain ⟨tap, hold⟩ := first
      cases tap <;> simp [Grammar.Row.kinds, Grammar.Row.items, Grammar.Item.kinds,
        Grammar.Key.kinds, Grammar.PlainKey.kinds, Readable]
    · simp [Grammar.Row.kinds, Grammar.Row.items, Grammar.Item.kinds, Readable]

/-! ## Whole descriptions -/

theorem block_complete (stop : Position) (x : Grammar.Block) {ts : List Token} {ks : List Kind}
    (hts : kinds ts = x.kinds ++ ks) (hread : AllReadable (kinds ts)) :
    Leaves (block stop ts) ks := by
  -- The word a block starts with decides which reader goes on.
  cases x with
  | layout rows =>
    obtain ⟨t, rest, rfl, hk, hrest⟩ := kinds_eq_cons hts
    rw [kinds_cons, allReadable_cons] at hread
    rw [block, look_of_readable hread.1]
    simp only [ok_bind, hk]
    exact (layoutBlock_complete stop t.span rows hrest hread.2).bind fun b r hr => Leaves.pure hr
  | options backend lines =>
    obtain ⟨t, rest, rfl, hk, hrest⟩ := kinds_eq_cons hts
    rw [kinds_cons, allReadable_cons] at hread
    rw [block, look_of_readable hread.1]
    simp only [ok_bind, hk]
    exact (optionsBlock_complete stop t.span backend lines hrest hread.2).bind
      fun b r hr => Leaves.pure hr
  | key name lines =>
    obtain ⟨t, rest, rfl, hk, hrest⟩ := kinds_eq_cons hts
    rw [kinds_cons, allReadable_cons] at hread
    rw [block, look_of_readable hread.1]
    simp only [ok_bind, hk]
    exact (keyDeclaration_complete stop t.span name lines hrest hread.2).bind
      fun d r hr => Leaves.pure hr
  | layer name rows =>
    obtain ⟨t, rest, rfl, hk, hrest⟩ := kinds_eq_cons hts
    rw [kinds_cons, allReadable_cons] at hread
    rw [block, look_of_readable hread.1]
    simp only [ok_bind, hk]
    exact (layerBlock_complete stop t.span name rows hrest hread.2).bind
      fun b r hr => Leaves.pure hr

theorem checkLayout_complete (first : Option Span) {b : Block} {x : Grammar.Block}
    (hb : b.unlocated = Block.ofDerivation x)
    (hcount : (Grammar.File.layouts [x]).length + first.toList.length ≤ 1) :
    ∃ first', checkLayout first b = .ok first' := by
  cases b with
  | layout b =>
    cases x with
    | layout rows =>
      cases first with
      | none => exact ⟨some b.span, rfl⟩
      | some span => simp [Grammar.File.layouts, Grammar.Block.layout?] at hcount
    | options backend lines => cases hb
    | key name lines => cases hb
    | layer name rows => cases hb
  | options b => exact ⟨first, rfl⟩
  | key d => exact ⟨first, rfl⟩
  | layer b => exact ⟨first, rfl⟩

theorem blocks_complete (stop : Position) (first : Option Span) (f : Grammar.File)
    {ts : List Token} (hts : kinds ts = f.kinds) (hread : AllReadable (kinds ts))
    (hcount : f.layouts.length + first.toList.length ≤ 1) :
    ∃ found, blocks stop first ts = .ok found := by
  induction f generalizing first ts with
  | nil =>
    obtain rfl := List.map_eq_nil_iff.mp hts
    exact ⟨[], by rw [blocks]⟩
  | cons x f ih =>
    have hts' : kinds ts = x.kinds ++ Grammar.File.kinds f := hts
    obtain ⟨⟨b, close⟩, r, hblock, hr⟩ := block_complete stop x hts' hread
    -- The block that is read is the one that is derived, for there is only one.
    obtain ⟨x', hx', hb⟩ := block_sound hblock
    obtain ⟨rfl, -⟩ := Grammar.Block.kinds_append_inj (hx'.symm.trans hts')
    rw [Grammar.File.layouts_cons, List.length_append] at hcount
    obtain ⟨first', hfirst⟩ := checkLayout_complete first hb (by omega)
    have hfirst' := checkLayout_count hb hfirst
    have hrest : AllReadable (kinds r.1) := by
      rw [hr]
      exact (allReadable_append.mp (hts' ▸ hread)).2
    obtain ⟨others, hothers⟩ := ih first' hr hrest (by omega)
    cases ts with
    | nil => cases hblock
    | cons t rest =>
      refine ⟨(b, close) :: others, ?_⟩
      rw [blocks, hblock]
      simp only [ok_bind, hfirst, hothers]
      rfl

theorem description_complete {s : TokenStream} {f : Grammar.File}
    {rows : List (Grammar.Row Grammar.Cell)} (hts : kinds s.tokens = f.kinds)
    (hread : AllReadable (kinds s.tokens)) (hrows : f.layouts = [rows]) :
    ∃ d, description s = .ok d ∧ d.unlocated = f.tree rows := by
  obtain ⟨found, hfound⟩ := blocks_complete s.stop none f hts hread (by simp [hrows])
  -- The blocks that were found are those of the derivation, and one of these is a layout.
  have hsome : ∃ layout, layoutOf? found = some layout := by
    obtain ⟨g, hg, hbs, -⟩ := blocks_sound none s.tokens hfound
    obtain rfl := Grammar.File.kinds_inj (hg.symm.trans hts)
    have hlayout := layoutOf?_unlocated hbs
    rw [hrows] at hlayout
    obtain ⟨layout, hlayout, -⟩ := Option.map_eq_some_iff.mp hlayout
    exact ⟨layout, hlayout⟩
  obtain ⟨layout, hlayout⟩ := hsome
  have hd : description s = .ok (assemble layout found) := by
    simp only [description, hfound, ok_bind, hlayout]
    rfl
  -- What was read is the tree of some derivation. There is only one.
  obtain ⟨g, rows', hg, hrows', htree⟩ := description_sound hd
  obtain rfl := Grammar.File.kinds_inj (hg.symm.trans hts)
  obtain rfl : rows' = rows := (List.cons.inj (hrows'.symm.trans hrows)).1
  exact ⟨_, hd, htree⟩

/-- Reading accepts exactly what the grammar derives: a source whose tokens can all be read, and
which the grammar derives as a file with one layout. There is only one derivation, and the
description that is read is its tree, up to places. -/
theorem parse_eq_ok_iff_derivable (source : Text) (tree : Description) :
    ((∃ d, Description.parse source = .ok d ∧ d.unlocated = tree) ↔
      AllReadable (kinds (TokenStream.ofText source).tokens) ∧
      ∃ (f : Grammar.File) (rows : List (Grammar.Row Grammar.Cell)),
        f.kinds = kinds (TokenStream.ofText source).tokens ∧ f.layouts = [rows] ∧
          f.tree rows = tree) ∧
      ∀ f g : Grammar.File, f.kinds = kinds (TokenStream.ofText source).tokens →
        g.kinds = kinds (TokenStream.ofText source).tokens → f = g := by
  refine ⟨⟨?_, ?_⟩, ?_⟩
  · rintro ⟨d, hd, rfl⟩
    obtain ⟨f, rows, hf, hrows, htree⟩ := description_sound hd
    refine ⟨?_, f, rows, hf.symm, hrows, htree.symm⟩
    rw [hf]
    exact file_readable f
  · rintro ⟨hread, f, rows, hf, hrows, rfl⟩
    exact description_complete hf.symm hread hrows
  -- The grammar is unambiguous.
  · intro f g hf hg
    exact Grammar.File.kinds_inj (hf.trans hg.symm)

end Keyplan.Parser
