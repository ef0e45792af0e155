import Keyplan.Proofs.Compilation.Regrouping
import Keyplan.Proofs.Grammar.Extents

/-!
# Hull — the place of a whole description

The place of a description is put together from the closing braces of its blocks. So it runs from
the first of them to the last token: the first block starts before it, and only the blocks behind
the first one lie within it.
-/

namespace Keyplan

open Token (Ordered extent)

def Token.closes (t : Token) : Bool :=
  decide (t.kind = .symbol .closeBrace)

/-! ## 1. Joins -/

theorem Token.extent_eq {ts : List Token} {first last : Token} (hfirst : ts.head? = some first)
    (hlast : ts.getLast? = some last) : extent ts = ⟨first.span.start, last.span.stop⟩ := by
  rw [extent, hfirst, hlast]
  rfl

/-- Joining the places of tokens in order gives the extent of all of them. -/
theorem Token.Ordered.foldl_join {front ts : List Token} (h : Ordered (front ++ ts))
    (hfront : front ≠ []) :
    (ts.map (·.span)).foldl Span.join (extent front) = extent (front ++ ts) := by
  induction ts generalizing front with
  | nil => rw [List.append_nil]; rfl
  | cons t ts ih =>
    have hsplit : front ++ t :: ts = front ++ [t] ++ ts := by simp
    rw [hsplit] at h ⊢
    have hjoin : (extent front).join t.span = extent (front ++ [t]) := by
      have hends : Ordered (front ++ [] ++ [t]) := by simpa using h.left
      simpa using hends.join_extent hfront (List.cons_ne_nil t [])
    rw [List.map_cons, List.foldl_cons, hjoin]
    exact ih h (by simp)

/-! ## 2. Closing braces -/

namespace Parser

open Outcome

/-- Behind a closing brace, whose place is `close`, the tokens `rest` are left of `ts`. -/
def ClosedBy (ts : List Token) (close : Span) (rest : List Token) : Prop :=
  ∃ front c, ts = front ++ [c] ++ rest ∧ c.kind = .symbol .closeBrace ∧ close = c.span

theorem ClosedBy.behind {ts back rest : List Token} {close : Span} (h : ClosedBy back close rest)
    (seg : List Token) (hts : ts = seg ++ back) : ClosedBy ts close rest := by
  obtain ⟨front, c, hback, hc, hclose⟩ := h
  exact ⟨seg ++ front, c, by rw [hts, hback]; simp, hc, hclose⟩

section Blocks

variable {stop : Position} {k : Token} {ts : List Token} {close : Span}

theorem body_closedBy {α X : Type} {outline : α → Outline} {derived : X → List Token.Kind}
    {shape : X → Shape} {keyword : Span} {part : (ts : List Token) → Outcome α ts}
    (hpart : ∀ ts a r, Ordered ts → part ts = .ok (a, r) →
      ∃ x seg, ts = seg ++ r.1 ∧ Outlined seg (derived x) [shape x] [outline a])
    {as : List α} {r : Rest ts} (hordered : Ordered ts)
    (h : body stop keyword part ts = .ok ((as, close), r)) : ClosedBy ts close r.1 := by
  obtain ⟨xs, seg, c, hts, hc, hclose, -⟩ := body_extent hpart ts hordered h
  exact ⟨seg, c, hts, hc, hclose⟩

theorem layoutBlock_closedBy {keyword : Span} {b : LayoutBlock} {r : Rest ts}
    (hordered : Ordered ts) (h : layoutBlock stop keyword ts = .ok ((b, close), r)) :
    ClosedBy ts close r.1 := by
  rw [layoutBlock] at h
  obtain ⟨⟨span, r₁⟩, h₁, h⟩ := bind_eq_ok_iff.mp h
  obtain ⟨⟨⟨rows, close'⟩, r₂⟩, h₂, h⟩ := bind_eq_ok_iff.mp h
  obtain ⟨o, hts, -⟩ := openBlock_tokens h₁
  obtain ⟨⟨rfl, rfl⟩, rfl⟩ := by simpa [pure_eq_ok_iff] using h
  exact (body_closedBy layoutRow_extent (hts ▸ hordered).right h₂).behind _ hts

theorem named_closedBy {α X : Type} {outline : α → Outline} {derived : X → List Token.Kind}
    {shape : X → Shape} {fault : SyntaxFault} {part : (ts : List Token) → Outcome α ts}
    (hpart : ∀ ts a r, Ordered ts → part ts = .ok (a, r) →
      ∃ x seg, ts = seg ++ r.1 ∧ Outlined seg (derived x) [shape x] [outline a])
    {keyword span : Span} {name : String × Span} {r₁ : Rest ts} {r₂ : Rest r₁.1} {r₃ : Rest r₂.1}
    {as : List α} (hordered : Ordered ts) (h₁ : expect stop identifier? fault ts = .ok (name, r₁))
    (h₂ : openBlock stop keyword r₁.1 = .ok (span, r₂))
    (h₃ : body stop keyword part r₂.1 = .ok ((as, close), r₃)) : ClosedBy ts close r₃.1 := by
  obtain ⟨n, hts, -⟩ := expect_eq_ok_iff.mp h₁
  obtain ⟨o, hrest, -⟩ := openBlock_tokens h₂
  have hall : ts = [n, o] ++ r₂.1 := hts.trans (congrArg (n :: ·) hrest)
  exact (body_closedBy hpart (hall ▸ hordered).right h₃).behind _ hall

theorem block_closedBy {b : Block} {r : Rest ts} (hordered : Ordered ts)
    (h : block stop ts = .ok ((b, close), r)) : ClosedBy ts close r.1 := by
  cases ts with
  | nil => cases h
  | cons t rest =>
    have hrest : Ordered rest := hordered.sublist (List.sublist_cons_self t rest)
    rw [block] at h
    obtain ⟨t', -, h⟩ := bind_eq_ok_iff.mp h
    split at h
    · -- A layout.
      obtain ⟨⟨⟨b', close'⟩, r'⟩, h', h⟩ := bind_eq_ok_iff.mp h
      obtain ⟨⟨rfl, rfl⟩, rfl⟩ := by simpa [pure_eq_ok_iff] using h
      exact (layoutBlock_closedBy hrest h').behind [t] rfl
    · -- Options.
      obtain ⟨⟨⟨b', close'⟩, r'⟩, h', h⟩ := bind_eq_ok_iff.mp h
      obtain ⟨⟨rfl, rfl⟩, rfl⟩ := by simpa [pure_eq_ok_iff] using h
      rw [optionsBlock] at h'
      obtain ⟨⟨name, r₁⟩, h₁, h'⟩ := bind_eq_ok_iff.mp h'
      obtain ⟨⟨span, r₂⟩, h₂, h'⟩ := bind_eq_ok_iff.mp h'
      obtain ⟨⟨⟨lines, close'⟩, r₃⟩, h₃, h'⟩ := bind_eq_ok_iff.mp h'
      obtain ⟨⟨rfl, rfl⟩, rfl⟩ := by simpa [pure_eq_ok_iff] using h'
      exact (named_closedBy optionLine_extent hrest h₁ h₂ h₃).behind [t] rfl
    · -- A key declaration.
      obtain ⟨⟨⟨d, close'⟩, r'⟩, h', h⟩ := bind_eq_ok_iff.mp h
      obtain ⟨⟨rfl, rfl⟩, rfl⟩ := by simpa [pure_eq_ok_iff] using h
      rw [keyDeclaration] at h'
      obtain ⟨⟨name, r₁⟩, h₁, h'⟩ := bind_eq_ok_iff.mp h'
      obtain ⟨⟨span, r₂⟩, h₂, h'⟩ := bind_eq_ok_iff.mp h'
      obtain ⟨⟨⟨outputs, close'⟩, r₃⟩, h₃, h'⟩ := bind_eq_ok_iff.mp h'
      obtain ⟨⟨rfl, rfl⟩, rfl⟩ := by simpa [pure_eq_ok_iff] using h'
      exact (named_closedBy keyOutput_extent hrest h₁ h₂ h₃).behind [t] rfl
    · -- A layer.
      obtain ⟨⟨⟨b', close'⟩, r'⟩, h', h⟩ := bind_eq_ok_iff.mp h
      obtain ⟨⟨rfl, rfl⟩, rfl⟩ := by simpa [pure_eq_ok_iff] using h
      rw [layerBlock] at h'
      obtain ⟨⟨name, r₁⟩, h₁, h'⟩ := bind_eq_ok_iff.mp h'
      obtain ⟨⟨span, r₂⟩, h₂, h'⟩ := bind_eq_ok_iff.mp h'
      obtain ⟨⟨⟨rows, close'⟩, r₃⟩, h₃, h'⟩ := bind_eq_ok_iff.mp h'
      obtain ⟨⟨rfl, rfl⟩, rfl⟩ := by simpa [pure_eq_ok_iff] using h'
      exact (named_closedBy layerRow_extent hrest h₁ h₂ h₃).behind [t] rfl
    · cases h

end Blocks

/-! ## 3. Blocks side by side -/

/-- Tokens cut into blocks: each block has the tokens up to and with the next closing brace, stands
where they stand, and is recorded with the place of that brace. -/
inductive CutInto : List Token → List (Block × Span) → Prop
  | nil : CutInto [] []
  | cons {front rest : List Token} {c : Token} {b : Block} {found : List (Block × Span)}
    (starts : front ≠ []) (inside : ∀ t ∈ front, t.closes = false) (close : c.closes = true)
    (span : b.outline.span = extent (front ++ [c])) (others : CutInto rest found) :
    CutInto (front ++ [c] ++ rest) ((b, c.span) :: found)

theorem block_cut {stop : Position} {ts : List Token} {b : Block} {close : Span} {r : Rest ts}
    (hordered : Ordered ts) (h : block stop ts = .ok ((b, close), r)) :
    ∃ front c, ts = front ++ [c] ++ r.1 ∧ front ≠ [] ∧ (∀ t ∈ front, t.closes = false) ∧
      c.closes = true ∧ b.outline.span = extent (front ++ [c]) ∧ close = c.span := by
  obtain ⟨x, seg, hts, houtlined⟩ := block_extent hordered h
  obtain ⟨front, c, hts', hc, hclose⟩ := block_closedBy hordered h
  -- The tokens of the block are the same both times.
  obtain rfl : seg = front ++ [c] := List.append_cancel_right (hts.symm.trans hts')
  refine ⟨front, c, hts, ?_, ?_, by simp [Token.closes, hc], ?_, hclose⟩
  · -- A block starts with a keyword.
    rintro rfl
    have hkinds : [c.kind] = x.kinds := houtlined.kinds_eq
    cases x <;> simp [Grammar.Block.kinds, Grammar.braced] at hkinds
  · obtain ⟨inner, hinner, hkinds⟩ := x.kinds_eq_concat
    have hfront : kinds front = inner := by
      have hsame : kinds front ++ [c.kind] = inner ++ [.symbol .closeBrace] := by
        rw [← hkinds, ← houtlined.kinds_eq]
        simp [kinds]
      exact (List.append_inj' hsame rfl).1
    intro t ht
    rw [Token.closes, decide_eq_false_iff_not]
    intro hkind
    apply hinner
    rw [← hfront, ← hkind]
    exact List.mem_map_of_mem ht
  · cases x <;> exact houtlined.span_eq

theorem blocks_cut {stop : Position} (first : Option Span) (ts : List Token)
    {found : List (Block × Span)} (hordered : Ordered ts)
    (h : blocks stop first ts = .ok found) : CutInto ts found := by
  induction first, ts using blocks.induct generalizing found with
  | case1 first =>
    rw [blocks] at h
    obtain rfl := Except.ok.inj h
    exact .nil
  | case2 first t rest ih =>
    rw [blocks] at h
    obtain ⟨⟨⟨b, close⟩, r⟩, h₁, h⟩ := bind_eq_ok_iff.mp h
    obtain ⟨first', -, h⟩ := bind_eq_ok_iff.mp h
    obtain ⟨others, h₃, h⟩ := bind_eq_ok_iff.mp h
    obtain ⟨front, c, hts, hstarts, hfront, hc, hspan, rfl⟩ := block_cut hordered h₁
    have hothers := ih r first' (hts ▸ hordered).right h₃
    obtain rfl := pure_eq_ok_iff.mp h
    rw [hts]
    exact .cons hstarts hfront hc hspan hothers

namespace CutInto

variable {ts : List Token} {found : List (Block × Span)}

/-- The places that blocks are recorded with are those of all closing braces. -/
theorem map_snd (h : CutInto ts found) :
    found.map (·.2) = (ts.filter Token.closes).map (·.span) := by
  induction h with
  | nil => rfl
  | cons starts inside close span others ih =>
    rename_i front rest c b found
    have hnone : front.filter Token.closes = [] :=
      List.filter_eq_nil_iff.mpr fun t ht => by simp [inside t ht]
    rw [List.map_cons, ih, List.filter_append, List.filter_append, hnone]
    simp [close]

theorem closes_getLast (h : CutInto ts found) : ∀ t ∈ ts.getLast?, t.closes = true := by
  induction h with
  | nil => simp
  | cons starts inside close span others ih =>
    rename_i front rest c b found
    rw [List.getLast?_append]
    cases hrest : rest.getLast? with
    | none => simpa using close
    | some t => simpa using ih t hrest

theorem exists_segment (h : CutInto ts found) : ∀ b ∈ found.map (·.1), ∃ front seg back,
    ts = front ++ seg ++ back ∧ seg ≠ [] ∧ b.outline.span = extent seg := by
  induction h with
  | nil => simp
  | cons starts inside close span others ih =>
    rename_i front rest c b found
    intro b' hb'
    rcases List.mem_cons.mp hb' with rfl | hb'
    · exact ⟨[], front ++ [c], rest, rfl, by simp, span⟩
    · obtain ⟨front', seg, back, rfl, hseg, hspan⟩ := ih b' hb'
      exact ⟨front ++ [c] ++ front', seg, back, by simp, hseg, hspan⟩

/-- The joined places of the closing braces run from the first of them to the last token. -/
theorem foldl_join (h : CutInto ts found) (hordered : Ordered ts) {close last : Token}
    (hclose : ts.find? Token.closes = some close) (hlast : ts.getLast? = some last) :
    (found.map (·.2)).foldl Span.join {} = ⟨close.span.start, last.span.stop⟩ := by
  have hcloses := h.closes_getLast last hlast
  rw [h.map_snd]
  have hends : (ts.filter Token.closes).head? = some close ∧
      (ts.filter Token.closes).getLast? = some last := by
    rw [List.head?_filter]
    obtain ⟨front, rfl⟩ := List.getLast?_eq_some_iff.mp hlast
    exact ⟨hclose, by simp [hcloses]⟩
  have hbraces := hordered.sublist (List.filter_sublist (p := Token.closes))
  generalize ts.filter Token.closes = braces at hends hbraces
  obtain ⟨hhead, hend⟩ := hends
  obtain ⟨others, rfl⟩ := List.head?_eq_some_iff.mp hhead
  have hfirst : Ordered ([close] ++ others) := hbraces
  have hjoin := hfirst.foldl_join (List.cons_ne_nil _ _)
  rw [List.map_cons, List.foldl_cons]
  exact hjoin.trans (Token.extent_eq rfl hend)

/-- The first block has the tokens up to the first closing brace. The others lie between that brace
and the last token. -/
theorem exists_first (h : CutInto ts found) (hordered : Ordered ts) (hfound : found ≠ []) :
    ∃ b bs first close last, found.map (·.1) = b :: bs ∧ ts.head? = some first ∧
      ts.find? Token.closes = some close ∧ ts.getLast? = some last ∧
      b.outline.span = ⟨first.span.start, close.span.stop⟩ ∧
      first.span.start.before close.span.start ∧
      ∀ b' ∈ bs, b'.outline.span.Within ⟨close.span.start, last.span.stop⟩ := by
  cases h with
  | nil => exact absurd rfl hfound
  | cons starts inside close span others =>
    rename_i front rest c b found
    obtain ⟨first, front, rfl⟩ := List.exists_cons_of_ne_nil starts
    -- The other tokens of the first block are in front of its closing brace, and close nothing.
    have hnone : (first :: front).find? Token.closes = none :=
      List.find?_eq_none.mpr fun t ht => by simp [inside t ht]
    obtain ⟨last, hlast⟩ : ∃ last, (first :: front ++ [c] ++ rest).getLast? = some last :=
      ⟨_, List.getLast?_eq_some_getLast (by simp)⟩
    refine ⟨b, found.map (·.1), first, c, last, rfl, rfl, ?_, hlast, ?_, ?_, ?_⟩
    · rw [List.append_assoc, List.find?_append, hnone]
      simp [close]
    · rw [span]
      exact Token.extent_eq rfl List.getLast?_concat
    · have hproper := hordered.proper first (by simp)
      have hapart : first.span.Precedes c.span := by
        have hpair : Ordered ([first] ++ front ++ [c]) := hordered.left
        exact hpair.ends.extent_precedes (by simp) (by simp)
      simp only [Span.Proper, Span.Precedes, Position.before_iff] at *
      omega
    · intro b' hb'
      obtain ⟨front', seg, back, rfl, hseg, hspan⟩ := others.exists_segment b' hb'
      have hsplit : first :: front ++ [c] ++ (front' ++ seg ++ back) =
          first :: front ++ ([c] ++ front' ++ seg ++ back) := by
        simp
      have hbehind : Ordered ([c] ++ front' ++ seg ++ back) := (hsplit ▸ hordered).right
      have hback : ([c] ++ front' ++ seg ++ back).getLast? = some last := by
        rw [hsplit, List.getLast?_append_of_ne_nil (first :: front) (by simp)] at hlast
        exact hlast
      rw [hspan, ← Token.extent_eq rfl hback]
      exact hbehind.extent_within hseg

end CutInto

end Parser

/-- The place of a description runs from its first closing brace to its last token. So the first
block, which starts with the first token, starts before it, and only the other blocks lie within
it. -/
theorem Description.parse_hull {source : Text} {d : Description}
    (h : Description.parse source = .ok d) :
    ∃ (b : Parser.Block) (bs : List Parser.Block) (first close last : Token),
      Parser.Holds d (b :: bs) ∧
      (TokenStream.ofText source).tokens.head? = some first ∧
      (TokenStream.ofText source).tokens.find? Token.closes = some close ∧
      (TokenStream.ofText source).tokens.getLast? = some last ∧
      d.span = ⟨close.span.start, last.span.stop⟩ ∧
      b.outline.span = ⟨first.span.start, close.span.stop⟩ ∧
      first.span.start.before d.span.start ∧
      ∀ b' ∈ bs, b'.outline.span.Within d.span := by
  obtain ⟨f, found, hblocks, hholds, hspan, -, -, hordered⟩ := Parser.exists_blocks h
  have hcut := Parser.blocks_cut none _ hordered hblocks
  have hfound : found ≠ [] := by
    rintro rfl
    cases hholds.layout
  obtain ⟨b, bs, first, close, last, hbs, hfirst, hclose, hlast, hb, hbefore, hwithin⟩ :=
    hcut.exists_first hordered hfound
  rw [hcut.foldl_join hordered hclose hlast] at hspan
  rw [hbs] at hholds
  rw [hspan]
  exact ⟨b, bs, first, close, last, hholds, hfirst, hclose, hlast, rfl, hb, hbefore, hwithin⟩

def layerFirst : Text :=
  Text.ofString "layer l \x7b x; \x7d\nlayout \x7b 1k; \x7d"

theorem Description.parse_hull_layerFirst : ∃ d, Description.parse layerFirst = .ok d ∧
    d.span = ⟨⟨1, 14⟩, ⟨2, 15⟩⟩ := by
  have hrun : (Description.parse layerFirst).toOption.isSome = true := by decide +kernel
  obtain ⟨d, hd⟩ := Option.isSome_iff_exists.mp hrun
  have hparse := Outcome.toOption_eq_some_iff.mp hd
  obtain ⟨-, -, -, close, last, -, -, hclose, hlast, hspan, -⟩ := parse_hull hparse
  have hstart : ((TokenStream.ofText layerFirst).tokens.find? Token.closes).map (·.span.start) =
      some ⟨1, 14⟩ := by
    decide +kernel
  have hstop : (TokenStream.ofText layerFirst).tokens.getLast?.map (·.span.stop) =
      some ⟨2, 15⟩ := by
    decide +kernel
  rw [hclose, Option.map_some, Option.some.injEq] at hstart
  rw [hlast, Option.map_some, Option.some.injEq] at hstop
  rw [hstart, hstop] at hspan
  exact ⟨d, hparse, hspan⟩

def onlyLayout : Text :=
  Text.ofString "layout \x7b 1k; \x7d"

/-- The place of a description of one block starts with the last token of that block. -/
theorem Description.parse_hull_onlyLayout : ∃ d first last,
    Description.parse onlyLayout = .ok d ∧
      (TokenStream.ofText onlyLayout).tokens.head? = some first ∧
      (TokenStream.ofText onlyLayout).tokens.getLast? = some last ∧
      d.span ≠ ⟨first.span.start, last.span.stop⟩ ∧ ¬ d.layout.span.Within d.span := by
  have hrun : (Description.parse onlyLayout).toOption.map (fun d => (d.span, d.layout.span)) =
      some (⟨⟨1, 14⟩, ⟨1, 15⟩⟩, ⟨⟨1, 1⟩, ⟨1, 15⟩⟩) := by
    decide +kernel
  have hfirst : (TokenStream.ofText onlyLayout).tokens.head?.map (·.span.start) =
      some ⟨1, 1⟩ := by
    decide +kernel
  have hlast : (TokenStream.ofText onlyLayout).tokens.getLast?.isSome = true := by decide +kernel
  obtain ⟨d, hd, hplaces⟩ := Option.map_eq_some_iff.mp hrun
  obtain ⟨hspan, hlayout⟩ := Prod.mk.inj hplaces
  obtain ⟨first, hfirst, hstart⟩ := Option.map_eq_some_iff.mp hfirst
  obtain ⟨last, hlast⟩ := Option.isSome_iff_exists.mp hlast
  refine ⟨d, first, last, Outcome.toOption_eq_some_iff.mp hd, hfirst, hlast, ?_, ?_⟩
  · rw [hspan, hstart]
    simp
  · rw [hspan, hlayout]
    simp [Span.Within, Position.before]

end Keyplan
