import Keyplan.Proofs.Grammar.Extents
import Keyplan.Proofs.Located

/-!
# Located parsing — readers on tokens that stand on rows

A reader of tokens that stand on rows fails with a located diagnostic about form, or what it reads
has all of its places on rows. Every text has such tokens, also a text with invalid ones.
-/

namespace Keyplan.Parser

open Outcome

def OnRows (ts : List Token) : Prop :=
  ∀ t ∈ ts, t.span.OnRow

/-- A diagnostic about form, or something for which `Q` holds, with tokens on rows left. -/
def Reads {α : Type} (Q : α → Prop) {ts : List Token} (x : Outcome α ts) : Prop :=
  Meets Diagnostic.Structural (fun p => Q p.1 ∧ OnRows p.2.1) x

variable {stop : Position} {ts : List Token}

/-! ## 1. Single tokens -/

theorem look_meets {t : Token} (h : t.span.OnRow) :
    Meets Diagnostic.Structural (· = t) (look t) := by
  unfold look
  split
  · exact Diagnostic.structural_of_span h rfl rfl
  · exact Diagnostic.structural_of_span h rfl rfl
  · rfl

theorem peek_meets (hstop : 0 < stop.row) (hts : OnRows ts) :
    Meets Diagnostic.Structural (fun t => t.span.OnRow) (peek stop ts) := by
  cases ts with
  | nil => exact .point hstop
  | cons t rest =>
    have ht := hts t List.mem_cons_self
    exact (look_meets ht).mono (fun _ h => h) fun _ h => h ▸ ht

section Wanting

variable {α : Type} {want : Token → Option α} {Q : α → Prop}

theorem accept_meets (hwant : ∀ t a, t.span.OnRow → want t = some a → Q a) (hts : OnRows ts) :
    Meets Diagnostic.Structural (fun found => ∀ p ∈ found, Q p.1 ∧ OnRows p.2.1)
      (accept want ts) := by
  cases ts with
  | nil =>
    intro p hp
    cases hp
  | cons t rest =>
    obtain ⟨ht, hrest⟩ := List.forall_mem_cons.mp hts
    rw [accept]
    refine (look_meets ht).bind ?_
    rintro _ rfl p hp
    obtain ⟨a, ha, rfl⟩ := Option.map_eq_some_iff.mp hp
    exact ⟨hwant _ a ht ha, hrest⟩

theorem expect_reads (hstop : 0 < stop.row) (hwant : ∀ t a, t.span.OnRow → want t = some a → Q a)
    (fault : SyntaxFault) {labels : List Label} (hlabels : ∀ l ∈ labels, l.span.OnRow)
    (hts : OnRows ts) : Reads Q (expect stop want fault ts labels) := by
  refine (accept_meets hwant hts).bind fun found hfound => ?_
  cases found with
  | some p => exact hfound p rfl
  | none =>
    refine (peek_meets hstop hts).bind fun t ht => ?_
    exact ⟨⟨ht, hlabels⟩, rfl⟩

end Wanting

theorem identifier?_onRow (t : Token) (a : String × Span) (ht : t.span.OnRow)
    (h : identifier? t = some a) : a.2.OnRow := by
  rw [(identifier?_eq_some_iff.mp h).2]
  exact ht

theorem integer?_onRow (t : Token) (a : Nat × Span) (ht : t.span.OnRow)
    (h : integer? t = some a) : a.2.OnRow := by
  rw [(integer?_eq_some_iff.mp h).2]
  exact ht

theorem string?_onRow (t : Token) (a : String × Span) (ht : t.span.OnRow)
    (h : string? t = some a) : a.2.OnRow := by
  rw [(string?_eq_some_iff.mp h).2]
  exact ht

theorem symbol?_onRow (s : Symbol) (t : Token) (span : Span) (ht : t.span.OnRow)
    (h : symbol? s t = some span) : span.OnRow := by
  rw [(symbol?_eq_some_iff.mp h).2]
  exact ht

/-! ## 2. Blocks in general -/

theorem blockLabel_onRow {keyword : Span} (h : keyword.OnRow) :
    ∀ l ∈ [blockLabel keyword], l.span.OnRow := by
  simpa [blockLabel] using h

theorem openBlock_reads (hstop : 0 < stop.row) {keyword : Span} (hkeyword : keyword.OnRow)
    (hts : OnRows ts) : Reads Span.OnRow (openBlock stop keyword ts) :=
  expect_reads hstop (symbol?_onRow _) _ (blockLabel_onRow hkeyword) hts

theorem body_reads {α : Type} {Q : α → Prop} {keyword : Span} (hstop : 0 < stop.row)
    (hkeyword : keyword.OnRow) {part : (ts : List Token) → Outcome α ts}
    (hpart : ∀ ts, OnRows ts → Reads Q (part ts)) (ts : List Token) (hts : OnRows ts) :
    Reads (fun p : List α × Span => (∀ a ∈ p.1, Q a) ∧ p.2.OnRow)
      (body stop keyword part ts) := by
  induction ts using body.induct with
  | case1 ts ih =>
    rw [body]
    refine (accept_meets (symbol?_onRow _) hts).bind fun found hfound => ?_
    cases found with
    | some p => exact ⟨⟨by simp, (hfound p rfl).1⟩, (hfound p rfl).2⟩
    | none =>
      refine (peek_meets hstop hts).bind fun t ht => ?_
      dsimp only
      split
      · exact ⟨⟨ht, blockLabel_onRow hkeyword⟩, rfl⟩
      refine (hpart ts hts).bind fun p hp => ?_
      refine (ih p.2 hp.2).bind fun q hq => ?_
      exact ⟨⟨List.forall_mem_cons.mpr ⟨hp.1, hq.1.1⟩, hq.1.2⟩, hq.2⟩

theorem value_reads (hstop : 0 < stop.row) (hts : OnRows ts) :
    Reads (fun p : String × Span => p.2.OnRow) (value stop ts) := by
  refine (expect_reads hstop (symbol?_onRow _) _ (by simp) hts).bind fun p hp => ?_
  refine (expect_reads hstop string?_onRow _ (by simp) hp.2).bind fun q hq => ?_
  exact hq

theorem semicolon_reads {previous : Span} (hprevious : previous.OnRow) (hts : OnRows ts) :
    Reads Span.OnRow (semicolon previous ts) := by
  refine (accept_meets (symbol?_onRow _) hts).bind fun found hfound => ?_
  cases found with
  | some p => exact hfound p rfl
  | none => exact Diagnostic.structural_of_span hprevious.last rfl rfl

theorem bracketed_reads {α : Type} {want : Token → Option (α × Span)}
    (hwant : ∀ t a, t.span.OnRow → want t = some a → a.2.OnRow) (hstop : 0 < stop.row)
    (fault : SyntaxFault) (hts : OnRows ts) :
    Reads (fun p : α × Span => p.2.OnRow) (bracketed stop want fault ts) := by
  refine (expect_reads hstop hwant _ (by simp) hts).bind fun p hp => ?_
  refine (expect_reads hstop (symbol?_onRow _) _ (by simp) hp.2).bind fun q hq => ?_
  exact hq

/-! ## 3. Rows -/

theorem unfinishedRow_structural {last : Option Span} (hlast : ∀ s ∈ last, s.OnRow)
    (fault : SyntaxFault) {t : Token} (ht : t.span.OnRow) :
    (unfinishedRow fault last t).Structural := by
  cases last with
  | none => exact Diagnostic.structural_of_span ht rfl rfl
  | some s => exact Diagnostic.structural_of_span (hlast s rfl).last rfl rfl

theorem rowEnd_meets (last : Option Span) {t : Token} (ht : t.span.OnRow) :
    Meets Diagnostic.Structural Span.OnRow (rowEnd last t) := by
  unfold rowEnd
  split
  · exact Diagnostic.structural_of_span ht rfl rfl
  · exact ht

/-- What a row has read: its items, and the place of its semicolon. -/
def ItemsOnRows {α : Type} (outline : α → Outline) (p : List α × Span) : Prop :=
  (∀ o ∈ p.1.map outline, o.Everywhere Span.OnRow) ∧ p.2.OnRow

theorem ItemsOnRows.cons {α : Type} {outline : α → Outline} {a : α} {p : List α × Span}
    (ha : (outline a).Everywhere Span.OnRow) (h : ItemsOnRows outline p) :
    ItemsOnRows outline (a :: p.1, p.2) :=
  ⟨List.forall_mem_cons.mpr ⟨ha, h.1⟩, h.2⟩

/-- A row runs from its first item to its semicolon, also when it had no items. -/
theorem ItemsOnRows.row {α : Type} {outline : α → Outline} {span : α → Span}
    (hspan : ∀ a, (outline a).span = span a) {items : List α} {semi : Span}
    (h : ItemsOnRows outline (items, semi)) :
    (Outline.node (((items.head?.map span).getD {}).join semi)
      (items.map outline ++ [.mark semi])).Everywhere Span.OnRow := by
  refine Outline.everywhere_node.mpr ⟨?_, ?_⟩
  · cases items with
    | nil => exact h.2
    | cons a items =>
      have ha := h.1 (outline a) (List.mem_map_of_mem List.mem_cons_self)
      exact (hspan a ▸ ha.here).join h.2
  · intro o ho
    rcases List.mem_append.mp ho with ho | ho
    · exact h.1 o ho
    · rw [List.mem_singleton.mp ho]
      exact Outline.everywhere_mark.mpr h.2

theorem layoutItems_reads (hstop : 0 < stop.row) (last : Option Span)
    (hlast : ∀ s ∈ last, s.OnRow) (ts : List Token) (hts : OnRows ts) :
    Reads (ItemsOnRows LayoutItem.outline) (layoutItems stop last ts) := by
  induction last, ts using layoutItems.induct with
  | case1 last =>
    rw [layoutItems]
    exact unfinishedRow_structural hlast _ (.point hstop)
  | case2 last t rest ih ihremap =>
    obtain ⟨ht, hrest⟩ := List.forall_mem_cons.mp hts
    rw [layoutItems]
    refine (look_meets ht).bind ?_
    rintro _ rfl
    split
    · refine (ih (by simpa using ht) hrest).bind fun p hp => ?_
      exact ⟨hp.1.cons (Outline.everywhere_mark.mpr ht), hp.2⟩
    · refine (ih (by simpa using ht) hrest).bind fun p hp => ?_
      exact ⟨hp.1.cons (Outline.everywhere_mark.mpr ht), hp.2⟩
    · refine (bracketed_reads integer?_onRow hstop _ hrest).bind fun p hp => ?_
      have hspan := ht.join hp.1
      refine (ihremap p.1.2 p.2 (by simpa using hspan) hp.2).bind fun q hq => ?_
      exact ⟨hq.1.cons (Outline.everywhere_mark.mpr hspan), hq.2⟩
    · refine (rowEnd_meets last ht).bind fun semi hsemi => ?_
      exact ⟨⟨by simp, hsemi⟩, hrest⟩
    · exact unfinishedRow_structural hlast _ ht
    · exact Diagnostic.structural_of_span ht rfl rfl

theorem layoutRow_reads (hstop : 0 < stop.row) (ts : List Token) (hts : OnRows ts) :
    Reads (fun r => r.outline.Everywhere Span.OnRow) (layoutRow stop ts) := by
  refine (layoutItems_reads hstop none (by simp) ts hts).bind fun p hp => ?_
  exact ⟨hp.1.row fun _ => rfl, hp.2⟩

/-! ## 4. Layers -/

theorem plainKey_reads (hstop : 0 < stop.row) (ts : List Token) (hts : OnRows ts) :
    Reads (fun k => k.span.OnRow) (plainKey stop ts) := by
  cases ts with
  | nil => exact Diagnostic.structural_of_span (.point hstop) rfl rfl
  | cons t rest =>
    obtain ⟨ht, hrest⟩ := List.forall_mem_cons.mp hts
    rw [plainKey]
    refine (look_meets ht).bind ?_
    rintro t rfl
    cases t.kind with
    | identifier name => exact ⟨ht, hrest⟩
    | character c => exact ⟨ht, hrest⟩
    | string contents =>
      dsimp only
      split
      · exact ⟨ht, hrest⟩
      · exact Diagnostic.structural_of_span ht rfl rfl
    | symbol s =>
      cases s with
      | openBracket =>
        refine (bracketed_reads identifier?_onRow hstop _ hrest).bind fun p hp => ?_
        exact ⟨ht.join hp.1, hp.2⟩
      | _ => exact Diagnostic.structural_of_span ht rfl rfl
    | _ => exact Diagnostic.structural_of_span ht rfl rfl

theorem timeout_meets (hstop : 0 < stop.row) (ts : List Token) (hts : OnRows ts) :
    Meets Diagnostic.Structural (fun found => ∀ p ∈ found, p.1.2.OnRow ∧ OnRows p.2.1)
      (timeout stop ts) := by
  cases ts with
  | nil =>
    intro p hp
    cases hp
  | cons t rest =>
    obtain ⟨ht, hrest⟩ := List.forall_mem_cons.mp hts
    rw [timeout]
    refine (look_meets ht).bind ?_
    rintro _ rfl
    split
    · refine (accept_meets integer?_onRow hrest).bind fun found hfound => ?_
      cases found with
      | none =>
        intro p hp
        cases hp
      | some q =>
        have hq := hfound q rfl
        refine (expect_reads hstop (symbol?_onRow _) _ (by simp) hq.2).bind fun c hc => ?_
        rintro p ⟨⟩
        exact hc
    · intro p hp
      cases hp

theorem key_everywhere {k : Key} (hspan : k.span.OnRow) (hkeys : ∀ p ∈ k.plainKeys, p.span.OnRow) :
    k.outline.Everywhere Span.OnRow := by
  refine Outline.everywhere_node.mpr ⟨hspan, ?_⟩
  intro o ho
  obtain ⟨p, hp, rfl⟩ := List.mem_map.mp ho
  exact Outline.everywhere_mark.mpr (hkeys p hp)

theorem key_reads (hstop : 0 < stop.row) (ts : List Token) (hts : OnRows ts) :
    Reads (fun k => k.outline.Everywhere Span.OnRow) (key stop ts) := by
  refine (plainKey_reads hstop ts hts).bind fun tap htap => ?_
  refine (accept_meets (fun _ _ _ _ => trivial) htap.2).bind fun found hfound => ?_
  cases found with
  | none => exact ⟨key_everywhere htap.1 (by simpa [Key.plainKeys] using htap.1), htap.2⟩
  | some style =>
    have hstyle := (hfound style rfl).2
    refine (plainKey_reads hstop _ hstyle).bind fun held hheld => ?_
    have hspan := htap.1.join hheld.1
    have hkeys : ∀ p ∈ [tap.1, held.1], p.span.OnRow := by
      simpa using ⟨htap.1, hheld.1⟩
    refine (timeout_meets hstop _ hheld.2).bind fun found hfound => ?_
    cases found with
    | none => exact ⟨key_everywhere hspan hkeys, hheld.2⟩
    | some n =>
      have hn := hfound n rfl
      exact ⟨key_everywhere (hspan.join hn.1) hkeys, hn.2⟩

theorem chord_reads (hstop : 0 < stop.row) {start : Span} (hstart : start.OnRow)
    (ts : List Token) (hts : OnRows ts) :
    Reads (fun c => c.outline.Everywhere Span.OnRow) (chord stop start ts) := by
  refine (key_reads hstop ts hts).bind fun k hk => ?_
  have hlabels : ∀ l ∈ [Label.mk start "the chord starts here"], l.span.OnRow := by
    simpa using hstart
  refine (expect_reads hstop (symbol?_onRow _) _ hlabels hk.2).bind fun close hclose => ?_
  refine ⟨Outline.everywhere_node.mpr ⟨hstart.join hclose.1, ?_⟩, hclose.2⟩
  simpa using hk.1

theorem rowItems_reads (hstop : 0 < stop.row) (last : Option Span)
    (hlast : ∀ s ∈ last, s.OnRow) (ts : List Token) (hts : OnRows ts) :
    Reads (ItemsOnRows RowItem.outline) (rowItems stop last ts) := by
  induction last, ts using rowItems.induct with
  | case1 last =>
    rw [rowItems]
    exact unfinishedRow_structural hlast _ (.point hstop)
  | case2 last t rest ihchord ihkey =>
    obtain ⟨ht, hrest⟩ := List.forall_mem_cons.mp hts
    rw [rowItems]
    refine (look_meets ht).bind ?_
    rintro _ rfl
    split
    · refine (rowEnd_meets last ht).bind fun semi hsemi => ?_
      exact ⟨⟨by simp, hsemi⟩, hrest⟩
    · exact unfinishedRow_structural hlast _ ht
    · refine (chord_reads hstop ht rest hrest).bind fun p hp => ?_
      have hspan : p.1.span.OnRow := hp.1.here
      refine (ihchord p.1 p.2 (by simpa using hspan) hp.2).bind fun q hq => ?_
      exact ⟨hq.1.cons hp.1, hq.2⟩
    · refine (key_reads hstop (_ :: rest) hts).bind fun p hp => ?_
      have hspan : p.1.span.OnRow := hp.1.here
      refine (ihkey p.1 p.2 (by simpa using hspan) hp.2).bind fun q hq => ?_
      exact ⟨hq.1.cons hp.1, hq.2⟩

theorem layerRow_reads (hstop : 0 < stop.row) (ts : List Token) (hts : OnRows ts) :
    Reads (fun r => r.outline.Everywhere Span.OnRow) (layerRow stop ts) := by
  refine (rowItems_reads hstop none (by simp) ts hts).bind fun p hp => ?_
  refine ⟨hp.1.row fun i => ?_, hp.2⟩
  cases i <;> rfl

/-! ## 5. Lines -/

theorem optionLine_reads (hstop : 0 < stop.row) (ts : List Token) (hts : OnRows ts) :
    Reads (fun o => o.outline.Everywhere Span.OnRow) (optionLine stop ts) := by
  refine (expect_reads hstop identifier?_onRow _ (by simp) hts).bind fun name hname => ?_
  refine (value_reads hstop hname.2).bind fun contents hcontents => ?_
  refine (semicolon_reads hcontents.1 hcontents.2).bind fun semi hsemi => ?_
  refine ⟨Outline.everywhere_node.mpr ⟨hname.1.join hsemi.1, ?_⟩, hsemi.2⟩
  simpa [Outline.everywhere_mark] using ⟨hname.1, hcontents.1⟩

theorem out?_onRow (t : Token) (span : Span) (ht : t.span.OnRow) (h : out? t = some span) :
    span.OnRow := by
  rw [(out?_eq_some_iff.mp h).2]
  exact ht

theorem keyOutput_reads (hstop : 0 < stop.row) (ts : List Token) (hts : OnRows ts) :
    Reads (fun o => o.outline.Everywhere Span.OnRow) (keyOutput stop ts) := by
  refine (expect_reads hstop out?_onRow _ (by simp) hts).bind fun word hword => ?_
  refine (expect_reads hstop identifier?_onRow _ (by simp) hword.2).bind fun name hname => ?_
  refine (value_reads hstop hname.2).bind fun contents hcontents => ?_
  refine (semicolon_reads hcontents.1 hcontents.2).bind fun semi hsemi => ?_
  refine ⟨Outline.everywhere_node.mpr ⟨hword.1.join hsemi.1, ?_⟩, hsemi.2⟩
  simpa [Outline.everywhere_mark] using hname.1

/-! ## 6. Blocks -/

/-- What a block has read: a node, and the place of its closing brace. -/
def BlockOnRows {α : Type} (outline : α → Outline) (p : α × Span) : Prop :=
  (outline p.1).Everywhere Span.OnRow ∧ p.2.OnRow

section Blocks

variable {keyword : Span}

theorem layoutBlock_reads (hstop : 0 < stop.row) (hkeyword : keyword.OnRow) (ts : List Token)
    (hts : OnRows ts) : Reads (BlockOnRows LayoutBlock.outline) (layoutBlock stop keyword ts) := by
  refine (openBlock_reads hstop hkeyword hts).bind fun brace hbrace => ?_
  refine (body_reads hstop hkeyword (layoutRow_reads hstop) _ hbrace.2).bind fun p hp => ?_
  refine ⟨⟨Outline.everywhere_node.mpr ⟨hkeyword.join hp.1.2, ?_⟩, hp.1.2⟩, hp.2⟩
  simpa using hp.1.1

/-- A node that runs from a keyword to a closing brace, with a name and parts. -/
theorem named_everywhere {α : Type} {outline : α → Outline} {name close : Span} {parts : List α}
    (hkeyword : keyword.OnRow) (hname : name.OnRow)
    (hparts : ∀ a ∈ parts, (outline a).Everywhere Span.OnRow) (hclose : close.OnRow) :
    (Outline.node (keyword.join close) (.mark name :: parts.map outline)).Everywhere
      Span.OnRow := by
  refine Outline.everywhere_node.mpr ⟨hkeyword.join hclose, List.forall_mem_cons.mpr ⟨?_, ?_⟩⟩
  · exact Outline.everywhere_mark.mpr hname
  · simpa using hparts

theorem optionsBlock_reads (hstop : 0 < stop.row) (hkeyword : keyword.OnRow) (ts : List Token)
    (hts : OnRows ts) :
    Reads (BlockOnRows OptionsBlock.outline) (optionsBlock stop keyword ts) := by
  refine (expect_reads hstop identifier?_onRow _ (by simp) hts).bind fun name hname => ?_
  refine (openBlock_reads hstop hkeyword hname.2).bind fun brace hbrace => ?_
  refine (body_reads hstop hkeyword (optionLine_reads hstop) _ hbrace.2).bind fun p hp => ?_
  exact ⟨⟨named_everywhere hkeyword hname.1 hp.1.1 hp.1.2, hp.1.2⟩, hp.2⟩

theorem keyDeclaration_reads (hstop : 0 < stop.row) (hkeyword : keyword.OnRow) (ts : List Token)
    (hts : OnRows ts) :
    Reads (BlockOnRows KeyDeclaration.outline) (keyDeclaration stop keyword ts) := by
  refine (expect_reads hstop identifier?_onRow _ (by simp) hts).bind fun name hname => ?_
  refine (openBlock_reads hstop hkeyword hname.2).bind fun brace hbrace => ?_
  refine (body_reads hstop hkeyword (keyOutput_reads hstop) _ hbrace.2).bind fun p hp => ?_
  exact ⟨⟨named_everywhere hkeyword hname.1 hp.1.1 hp.1.2, hp.1.2⟩, hp.2⟩

theorem layerBlock_reads (hstop : 0 < stop.row) (hkeyword : keyword.OnRow) (ts : List Token)
    (hts : OnRows ts) : Reads (BlockOnRows LayerBlock.outline) (layerBlock stop keyword ts) := by
  refine (expect_reads hstop identifier?_onRow _ (by simp) hts).bind fun name hname => ?_
  refine (openBlock_reads hstop hkeyword hname.2).bind fun brace hbrace => ?_
  refine (body_reads hstop hkeyword (layerRow_reads hstop) _ hbrace.2).bind fun p hp => ?_
  exact ⟨⟨named_everywhere hkeyword hname.1 hp.1.1 hp.1.2, hp.1.2⟩, hp.2⟩

end Blocks

theorem block_reads (hstop : 0 < stop.row) (ts : List Token) (hts : OnRows ts) :
    Reads (BlockOnRows Block.outline) (block stop ts) := by
  cases ts with
  | nil => exact Diagnostic.structural_of_span (.point hstop) rfl rfl
  | cons t rest =>
    obtain ⟨ht, hrest⟩ := List.forall_mem_cons.mp hts
    rw [block]
    refine (look_meets ht).bind ?_
    rintro _ rfl
    split
    · exact (layoutBlock_reads hstop ht rest hrest).bind fun p hp => hp
    · exact (optionsBlock_reads hstop ht rest hrest).bind fun p hp => hp
    · exact (keyDeclaration_reads hstop ht rest hrest).bind fun p hp => hp
    · exact (layerBlock_reads hstop ht rest hrest).bind fun p hp => hp
    · exact Diagnostic.structural_of_span ht rfl rfl

/-! ## 7. Whole descriptions -/

theorem checkLayout_meets {first : Option Span} (hfirst : ∀ s ∈ first, s.OnRow) {b : Block}
    (hb : b.outline.Everywhere Span.OnRow) :
    Meets Diagnostic.Structural (fun found => ∀ s ∈ found, s.OnRow) (checkLayout first b) := by
  cases b with
  | layout b =>
    have hspan : b.span.OnRow := hb.here
    cases first with
    | none => simpa [checkLayout, Meets] using hspan
    | some s => exact ⟨⟨hspan, by simpa [faultIn] using hfirst s rfl⟩, rfl⟩
  | options b => exact hfirst
  | key d => exact hfirst
  | layer b => exact hfirst

theorem blocks_meets (hstop : 0 < stop.row) (first : Option Span) (hfirst : ∀ s ∈ first, s.OnRow)
    (ts : List Token) (hts : OnRows ts) :
    Meets Diagnostic.Structural (fun found => ∀ p ∈ found, p.1.outline.Everywhere Span.OnRow)
      (blocks stop first ts) := by
  induction first, ts using blocks.induct with
  | case1 first =>
    rw [blocks]
    exact List.forall_mem_nil _
  | case2 first t rest ih =>
    rw [blocks]
    refine (block_reads hstop (t :: rest) hts).bind fun p hp => ?_
    refine (checkLayout_meets hfirst hp.1.1).bind fun first' hfirst' => ?_
    refine (ih p.2 first' hfirst' hp.2).bind fun others hothers => ?_
    exact List.forall_mem_cons.mpr ⟨hp.1.1, hothers⟩

end Keyplan.Parser

namespace Keyplan

open Outcome

structure Description.OnRows (d : Description) : Prop where
  layout : d.layout.outline.Everywhere Span.OnRow
  options : ∀ b ∈ d.options, b.outline.Everywhere Span.OnRow
  keys : ∀ k ∈ d.keys, k.outline.Everywhere Span.OnRow
  layers : ∀ b ∈ d.layers, b.outline.Everywhere Span.OnRow

theorem Parser.assemble_onRows {layout : LayoutBlock} {found : List (Block × Span)}
    (hfound : ∀ p ∈ found, p.1.outline.Everywhere Span.OnRow)
    (hlayout : layoutOf? found = some layout) : (assemble layout found).OnRows := by
  refine ⟨?_, ?_, ?_, ?_⟩
  · obtain ⟨⟨c, close⟩, hmem, hc⟩ := List.exists_of_findSome?_eq_some hlayout
    have h := hfound _ hmem
    cases c <;> cases hc
    exact h
  -- Every other block of the description was found under its own kind.
  all_goals
    intro b hb
    obtain ⟨⟨c, close⟩, hmem, hc⟩ := List.mem_filterMap.mp hb
    have h := hfound _ hmem
    cases c <;> cases hc
    exact h

/-- Whatever bytes a source has, reading it fails at a place on a row, or gives a description on
rows. -/
theorem Description.parse_meets (source : Text) :
    Meets Diagnostic.Structural Description.OnRows (Description.parse source) := by
  have hstop := TokenStream.row_stop_pos source
  refine (Parser.blocks_meets hstop none (by simp) _
    TokenStream.onRow_of_mem_tokens).bind fun found hfound => ?_
  split
  · rename_i layout hlayout
    exact Parser.assemble_onRows hfound hlayout
  · exact Diagnostic.structural_of_span (.point hstop) rfl rfl

end Keyplan
