import Keyplan.Description.Parser
import Keyplan.Proofs.Grammar
import Keyplan.Proofs.Outcome

/-!
# Soundness — what is read has a derivation

Whatever a reader takes from the front of its tokens is derived by the grammar, and what it makes
of it is the tree of that derivation, up to places.
-/

namespace Keyplan.Parser

open Outcome
open Token (Kind)

def kinds (ts : List Token) : List Kind :=
  ts.map (·.kind)

@[simp] theorem kinds_nil : kinds [] = [] := rfl

@[simp] theorem kinds_cons (t : Token) (ts : List Token) : kinds (t :: ts) = t.kind :: kinds ts :=
  rfl

/-- A token that can be read: it is neither invalid nor a number that is too large. -/
def Readable (k : Kind) : Prop :=
  k ≠ .invalid ∧ k ≠ .oversized

/-! ## Looking at tokens -/

theorem look_eq_ok_iff {t t' : Token} : look t = .ok t' ↔ Readable t.kind ∧ t' = t := by
  unfold look Readable
  split
  · simp_all
  · simp_all
  · simp_all [eq_comm]

theorem look_of_readable {t : Token} (h : Readable t.kind) : look t = .ok t :=
  look_eq_ok_iff.mpr ⟨h, rfl⟩

theorem accept_eq_some_iff {α : Type} {want : Token → Option α} {ts : List Token} {a : α}
    {r : Rest ts} :
    accept want ts = .ok (some (a, r)) ↔
      ∃ t, ts = t :: r.1 ∧ Readable t.kind ∧ want t = some a := by
  cases ts with
  | nil => simp [accept]
  | cons t rest =>
    rw [accept, bind_eq_ok_iff]
    constructor
    · rintro ⟨t', ht', h⟩
      obtain ⟨hr, rfl⟩ := look_eq_ok_iff.mp ht'
      obtain ⟨a', ha, hp⟩ := Option.map_eq_some_iff.mp (pure_eq_ok_iff.mp h)
      obtain ⟨rfl, rfl⟩ := Prod.mk.inj hp
      exact ⟨t', rfl, hr, ha⟩
    · rintro ⟨t', ht', hr, ha⟩
      obtain ⟨rest', hlt⟩ := r
      obtain ⟨rfl, rfl⟩ := List.cons.inj ht'
      exact ⟨t, look_of_readable hr, by rw [ha]; rfl⟩

theorem accept_eq_none_iff {α : Type} {want : Token → Option α} {ts : List Token} :
    accept want ts = .ok none ↔
      ts = [] ∨ ∃ t rest, ts = t :: rest ∧ Readable t.kind ∧ want t = none := by
  cases ts with
  -- At the end of the file nothing is wanted.
  | nil => simp [accept]
  | cons t rest =>
    rw [accept, bind_eq_ok_iff]
    constructor
    · rintro ⟨t', ht', h⟩
      obtain ⟨hr, rfl⟩ := look_eq_ok_iff.mp ht'
      exact .inr ⟨t', rest, rfl, hr, Option.map_eq_none_iff.mp (pure_eq_ok_iff.mp h)⟩
    · rintro (h | ⟨t', rest', h, hr, hw⟩)
      · cases h
      · obtain ⟨rfl, rfl⟩ := List.cons.inj h
        exact ⟨t, look_of_readable hr, by rw [hw]; rfl⟩

theorem expect_eq_ok_iff {α : Type} {stop : Position} {want : Token → Option α}
    {fault : SyntaxFault} {ts : List Token} {labels : List Label} {a : α} {r : Rest ts} :
    expect stop want fault ts labels = .ok (a, r) ↔
      ∃ t, ts = t :: r.1 ∧ Readable t.kind ∧ want t = some a := by
  rw [← accept_eq_some_iff, expect, bind_eq_ok_iff]
  constructor
  · rintro ⟨found, haccept, h⟩
    cases found with
    | none =>
      obtain ⟨t, _, ht⟩ := bind_eq_ok_iff.mp h
      cases ht
    | some p =>
      obtain rfl := pure_eq_ok_iff.mp h
      exact haccept
  · intro h
    exact ⟨_, h, rfl⟩

theorem accept_sound {α : Type} {want : Token → Option α} {ts : List Token} {a : α} {r : Rest ts}
    (h : accept want ts = .ok (some (a, r))) :
    ∃ t, want t = some a ∧ kinds ts = t.kind :: kinds r.1 := by
  obtain ⟨t, hts, -, hw⟩ := accept_eq_some_iff.mp h
  exact ⟨t, hw, congrArg kinds hts⟩

theorem expect_sound {α : Type} {stop : Position} {want : Token → Option α}
    {fault : SyntaxFault} {ts : List Token} {labels : List Label} {a : α} {r : Rest ts}
    (h : expect stop want fault ts labels = .ok (a, r)) :
    ∃ t, want t = some a ∧ kinds ts = t.kind :: kinds r.1 := by
  obtain ⟨t, hts, -, hw⟩ := expect_eq_ok_iff.mp h
  exact ⟨t, hw, congrArg kinds hts⟩

/-! ## Wanted tokens -/

theorem identifier?_eq_some_iff {t : Token} {name : String} {span : Span} :
    identifier? t = some (name, span) ↔ t.kind = .identifier name ∧ span = t.span := by
  unfold identifier?
  split <;> simp_all [eq_comm]

theorem integer?_eq_some_iff {t : Token} {n : Nat} {span : Span} :
    integer? t = some (n, span) ↔ t.kind = .integer n ∧ span = t.span := by
  unfold integer?
  split <;> simp_all [eq_comm]

theorem string?_eq_some_iff {t : Token} {contents : String} {span : Span} :
    string? t = some (contents, span) ↔ t.kind = .string contents ∧ span = t.span := by
  unfold string?
  split <;> simp_all [eq_comm]

theorem symbol?_eq_some_iff {s : Symbol} {t : Token} {span : Span} :
    symbol? s t = some span ↔ t.kind = .symbol s ∧ span = t.span := by
  unfold symbol?
  split <;> simp_all [eq_comm]

theorem holdStyle?_eq_some_iff {t : Token} {style : HoldStyle} :
    holdStyle? t = some style ↔ t.kind = Grammar.styleKind style := by
  unfold holdStyle? Grammar.styleKind
  cases style <;> split <;> simp_all

theorem out?_eq_some_iff {t : Token} {span : Span} :
    out? t = some span ↔ t.kind = .identifier "out" ∧ span = t.span := by
  unfold out?
  split <;> simp_all [eq_comm]

/-! ## Blocks in general -/

theorem openBlock_sound {stop : Position} {keyword : Span} {ts : List Token} {span : Span}
    {r : Rest ts} (h : openBlock stop keyword ts = .ok (span, r)) :
    kinds ts = .symbol .openBrace :: kinds r.1 := by
  obtain ⟨t, hw, hts⟩ := expect_sound h
  rw [hts, (symbol?_eq_some_iff.mp hw).1]

/-- The parts of a block are derived one after the other, up to the closing brace: `derived` gives
the tokens of a part and `tree` what `forget` makes of it. -/
theorem body_sound {α β X : Type} {forget : α → β} {derived : X → List Kind} {tree : X → β}
    {stop : Position} {keyword : Span} {part : (ts : List Token) → Outcome α ts}
    (hpart : ∀ ts a r, part ts = .ok (a, r) →
      ∃ x, kinds ts = derived x ++ kinds r.1 ∧ forget a = tree x)
    (ts : List Token) {as : List α} {close : Span} {r : Rest ts}
    (h : body stop keyword part ts = .ok ((as, close), r)) :
    ∃ xs : List X, kinds ts = xs.flatMap derived ++ .symbol .closeBrace :: kinds r.1 ∧
      as.map forget = xs.map tree := by
  -- The recursion of `body`: it calls itself on what a part has left.
  induction ts using body.induct generalizing as close with
  | case1 ts ih =>
    rw [body] at h
    obtain ⟨found, hfound, h⟩ := bind_eq_ok_iff.mp h
    cases found with
    -- The closing brace: no more parts.
    | some p =>
      obtain ⟨t, hw, hts⟩ := accept_sound hfound
      obtain ⟨⟨rfl, rfl⟩, rfl⟩ := by simpa [pure_eq_ok_iff] using h
      refine ⟨[], ?_, rfl⟩
      rw [hts, (symbol?_eq_some_iff.mp hw).1]
      rfl
    | none =>
      obtain ⟨t, -, h⟩ := bind_eq_ok_iff.mp h
      dsimp only at h
      split at h
      · cases h
      -- A part, and the rest of the block behind it.
      obtain ⟨⟨first, r₁⟩, h₁, h⟩ := bind_eq_ok_iff.mp h
      obtain ⟨⟨⟨others, close'⟩, r₂⟩, h₂, h⟩ := bind_eq_ok_iff.mp h
      obtain ⟨x, hx, hfx⟩ := hpart ts first r₁ h₁
      obtain ⟨xs, hxs, hfxs⟩ := ih r₁ h₂
      obtain ⟨⟨rfl, rfl⟩, rfl⟩ := by simpa [pure_eq_ok_iff] using h
      refine ⟨x :: xs, ?_, ?_⟩
      · rw [hx, hxs, List.flatMap_cons, List.append_assoc]
        rfl
      · rw [List.map_cons, List.map_cons, hfx, hfxs]

theorem value_sound {stop : Position} {ts : List Token} {contents : String} {span : Span}
    {r : Rest ts} (h : value stop ts = .ok ((contents, span), r)) :
    kinds ts = .symbol .colon :: .string contents :: kinds r.1 := by
  rw [value] at h
  obtain ⟨⟨colon, r₁⟩, h₁, h⟩ := bind_eq_ok_iff.mp h
  obtain ⟨⟨⟨contents', span'⟩, r₂⟩, h₂, h⟩ := bind_eq_ok_iff.mp h
  obtain ⟨t₁, hw₁, hts₁⟩ := expect_sound h₁
  obtain ⟨t₂, hw₂, hts₂⟩ := expect_sound h₂
  obtain ⟨⟨rfl, rfl⟩, rfl⟩ := by simpa [pure_eq_ok_iff] using h
  rw [hts₁, (symbol?_eq_some_iff.mp hw₁).1, hts₂, (string?_eq_some_iff.mp hw₂).1]
  rfl

theorem semicolon_sound {previous : Span} {ts : List Token} {span : Span} {r : Rest ts}
    (h : semicolon previous ts = .ok (span, r)) :
    kinds ts = .symbol .semicolon :: kinds r.1 := by
  rw [semicolon] at h
  obtain ⟨found, hfound, h⟩ := bind_eq_ok_iff.mp h
  cases found with
  | none => cases h
  | some p =>
    obtain rfl := pure_eq_ok_iff.mp h
    obtain ⟨t, hw, hts⟩ := accept_sound hfound
    rw [hts, (symbol?_eq_some_iff.mp hw).1]

theorem bracketed_sound {α : Type} {stop : Position} {want : Token → Option (α × Span)}
    {fault : SyntaxFault} {kind : α → Kind}
    (hwant : ∀ t a span, want t = some (a, span) → t.kind = kind a)
    {ts : List Token} {a : α} {close : Span} {r : Rest ts}
    (h : bracketed stop want fault ts = .ok ((a, close), r)) :
    kinds ts = kind a :: .symbol .closeBracket :: kinds r.1 := by
  rw [bracketed] at h
  obtain ⟨⟨⟨a', span⟩, r₁⟩, h₁, h⟩ := bind_eq_ok_iff.mp h
  obtain ⟨⟨close', r₂⟩, h₂, h⟩ := bind_eq_ok_iff.mp h
  obtain ⟨t₁, hw₁, hts₁⟩ := expect_sound h₁
  obtain ⟨t₂, hw₂, hts₂⟩ := expect_sound h₂
  obtain ⟨⟨rfl, rfl⟩, rfl⟩ := by simpa [pure_eq_ok_iff] using h
  rw [hts₁, hwant t₁ a' span hw₁, hts₂, (symbol?_eq_some_iff.mp hw₂).1]
  rfl

/-! ## Layout -/

theorem layoutItems_sound {stop : Position} (last : Option Span) (ts : List Token)
    {items : List LayoutItem} {semi : Span} {r : Rest ts}
    (h : layoutItems stop last ts = .ok ((items, semi), r)) :
    ∃ cells : List Grammar.Cell,
      kinds ts = cells.flatMap Grammar.Cell.kinds ++ .symbol .semicolon :: kinds r.1 ∧
      items.map LayoutItem.unlocated = cells.map Grammar.Cell.tree ∧
      (cells = [] → last ≠ none) := by
  induction last, ts using layoutItems.induct generalizing items semi with
  | case1 last =>
    rw [layoutItems] at h
    cases h
  | case2 last t rest ih ihremap =>
    rw [layoutItems] at h
    obtain ⟨t', hlook, h⟩ := bind_eq_ok_iff.mp h
    obtain ⟨-, rfl⟩ := look_eq_ok_iff.mp hlook
    split at h
    -- A run of keys.
    · rename_i n hk
      obtain ⟨⟨⟨items', semi'⟩, r'⟩, h', h⟩ := bind_eq_ok_iff.mp h
      obtain ⟨cells, hcells, htree, -⟩ := ih h'
      obtain ⟨⟨rfl, rfl⟩, rfl⟩ := by simpa [pure_eq_ok_iff] using h
      refine ⟨.keys n :: cells, ?_, ?_, by simp⟩
      · rw [kinds_cons, hk, hcells]
        rfl
      · rw [List.map_cons, List.map_cons, htree]
        rfl
    -- A run of spacers.
    · rename_i n hk
      obtain ⟨⟨⟨items', semi'⟩, r'⟩, h', h⟩ := bind_eq_ok_iff.mp h
      obtain ⟨cells, hcells, htree, -⟩ := ih h'
      obtain ⟨⟨rfl, rfl⟩, rfl⟩ := by simpa [pure_eq_ok_iff] using h
      refine ⟨.spaces n :: cells, ?_, ?_, by simp⟩
      · rw [kinds_cons, hk, hcells]
        rfl
      · rw [List.map_cons, List.map_cons, htree]
        rfl
    -- A key that is wired to another column: number and bracket are taken as well.
    · rename_i hk
      obtain ⟨⟨⟨n, close⟩, r₁⟩, h₁, h⟩ := bind_eq_ok_iff.mp h
      obtain ⟨⟨⟨items', semi'⟩, r₂⟩, h₂, h⟩ := bind_eq_ok_iff.mp h
      have hn := bracketed_sound (fun t a span hw => (integer?_eq_some_iff.mp hw).1) h₁
      obtain ⟨cells, hcells, htree, -⟩ := ihremap close r₁ h₂
      obtain ⟨⟨rfl, rfl⟩, rfl⟩ := by simpa [pure_eq_ok_iff] using h
      refine ⟨.remap n :: cells, ?_, ?_, by simp⟩
      · rw [kinds_cons, hk, hn, hcells]
        rfl
      · rw [List.map_cons, List.map_cons, htree]
        rfl
    -- The semicolon. It has to stand behind an item, so `last` is not empty.
    · rename_i hk
      obtain ⟨semi', hend, h⟩ := bind_eq_ok_iff.mp h
      obtain ⟨⟨rfl, rfl⟩, rfl⟩ := by simpa [pure_eq_ok_iff] using h
      refine ⟨[], ?_, rfl, ?_⟩
      · rw [kinds_cons, hk]
        rfl
      · rintro - rfl
        cases hend
    -- No item starts with anything else.
    · cases h
    · cases h

theorem layoutRow_sound {stop : Position} (ts : List Token) (row : LayoutRow) (r : Rest ts)
    (h : layoutRow stop ts = .ok (row, r)) :
    ∃ x : Grammar.Row Grammar.Cell, kinds ts = x.kinds Grammar.Cell.kinds ++ kinds r.1 ∧
      row.unlocated = { items := x.items.map Grammar.Cell.tree } := by
  rw [layoutRow] at h
  obtain ⟨⟨⟨items, semi⟩, r'⟩, h', h⟩ := bind_eq_ok_iff.mp h
  obtain ⟨cells, hcells, htree, hne⟩ := layoutItems_sound none ts h'
  obtain ⟨rfl, rfl⟩ := by simpa [pure_eq_ok_iff] using h
  cases cells with
  -- A row starts with no item behind it, so it cannot be empty.
  | nil => exact absurd rfl (hne rfl)
  | cons c cells =>
    refine ⟨⟨c, cells⟩, ?_, ?_⟩
    · rw [hcells, Grammar.Row.kinds, List.append_assoc]
      rfl
    · rw [LayoutRow.unlocated, htree]
      rfl

theorem layoutBlock_sound {stop : Position} {keyword : Span} {ts : List Token}
    {b : LayoutBlock} {close : Span} {r : Rest ts}
    (h : layoutBlock stop keyword ts = .ok ((b, close), r)) :
    ∃ rows, kinds ts = Grammar.braced (Grammar.Row.kinds Grammar.Cell.kinds) rows ++ kinds r.1 ∧
      b.unlocated = Grammar.layoutTree rows := by
  rw [layoutBlock] at h
  obtain ⟨⟨span, r₁⟩, h₁, h⟩ := bind_eq_ok_iff.mp h
  obtain ⟨⟨⟨rows, close'⟩, r₂⟩, h₂, h⟩ := bind_eq_ok_iff.mp h
  have hopen := openBlock_sound h₁
  obtain ⟨xs, hxs, htree⟩ := body_sound layoutRow_sound r₁.1 h₂
  obtain ⟨⟨rfl, rfl⟩, rfl⟩ := by simpa [pure_eq_ok_iff] using h
  refine ⟨xs, ?_, ?_⟩
  · rw [hopen, hxs]
    simp [Grammar.braced, Rest.after]
  · rw [LayoutBlock.unlocated, htree]
    rfl

/-! ## Options and key declarations -/

theorem optionLine_sound {stop : Position} (ts : List Token) (line : OptionLine) (r : Rest ts)
    (h : optionLine stop ts = .ok (line, r)) :
    ∃ x : Grammar.OptionLine, kinds ts = x.kinds ++ kinds r.1 ∧
      line.unlocated = { name := x.name, value := x.value } := by
  rw [optionLine] at h
  obtain ⟨⟨⟨name, nameSpan⟩, r₁⟩, h₁, h⟩ := bind_eq_ok_iff.mp h
  obtain ⟨⟨⟨contents, valueSpan⟩, r₂⟩, h₂, h⟩ := bind_eq_ok_iff.mp h
  obtain ⟨⟨semi, r₃⟩, h₃, h⟩ := bind_eq_ok_iff.mp h
  obtain ⟨t, hw, hts⟩ := expect_sound h₁
  have hvalue := value_sound h₂
  have hsemi := semicolon_sound h₃
  obtain ⟨rfl, rfl⟩ := by simpa [pure_eq_ok_iff] using h
  refine ⟨⟨name, contents⟩, ?_, rfl⟩
  rw [hts, (identifier?_eq_some_iff.mp hw).1, hvalue, hsemi]
  rfl

theorem optionsBlock_sound {stop : Position} {keyword : Span} {ts : List Token}
    {b : OptionsBlock} {close : Span} {r : Rest ts}
    (h : optionsBlock stop keyword ts = .ok ((b, close), r)) :
    ∃ backend lines, kinds ts =
        .identifier backend :: Grammar.braced Grammar.OptionLine.kinds lines ++ kinds r.1 ∧
      b.unlocated = Grammar.optionsTree backend lines := by
  rw [optionsBlock] at h
  obtain ⟨⟨⟨backend, backendSpan⟩, r₁⟩, h₁, h⟩ := bind_eq_ok_iff.mp h
  obtain ⟨⟨span, r₂⟩, h₂, h⟩ := bind_eq_ok_iff.mp h
  obtain ⟨⟨⟨lines, close'⟩, r₃⟩, h₃, h⟩ := bind_eq_ok_iff.mp h
  obtain ⟨t, hw, hts⟩ := expect_sound h₁
  have hopen := openBlock_sound h₂
  obtain ⟨xs, hxs, htree⟩ := body_sound optionLine_sound r₂.1 h₃
  obtain ⟨⟨rfl, rfl⟩, rfl⟩ := by simpa [pure_eq_ok_iff] using h
  refine ⟨backend, xs, ?_, ?_⟩
  · rw [hts, (identifier?_eq_some_iff.mp hw).1, hopen, hxs]
    simp [Grammar.braced, Rest.after]
  · rw [OptionsBlock.unlocated, htree]
    rfl

theorem keyOutput_sound {stop : Position} (ts : List Token) (output : KeyOutput) (r : Rest ts)
    (h : keyOutput stop ts = .ok (output, r)) :
    ∃ x : Grammar.OutLine, kinds ts = x.kinds ++ kinds r.1 ∧
      output.unlocated = { backend := x.backend, text := x.text } := by
  rw [keyOutput] at h
  obtain ⟨⟨word, r₁⟩, h₁, h⟩ := bind_eq_ok_iff.mp h
  obtain ⟨⟨⟨backend, backendSpan⟩, r₂⟩, h₂, h⟩ := bind_eq_ok_iff.mp h
  obtain ⟨⟨⟨contents, valueSpan⟩, r₃⟩, h₃, h⟩ := bind_eq_ok_iff.mp h
  obtain ⟨⟨semi, r₄⟩, h₄, h⟩ := bind_eq_ok_iff.mp h
  obtain ⟨t₁, hw₁, hts₁⟩ := expect_sound h₁
  obtain ⟨t₂, hw₂, hts₂⟩ := expect_sound h₂
  have hvalue := value_sound h₃
  have hsemi := semicolon_sound h₄
  obtain ⟨rfl, rfl⟩ := by simpa [pure_eq_ok_iff] using h
  refine ⟨⟨backend, contents⟩, ?_, rfl⟩
  rw [hts₁, (out?_eq_some_iff.mp hw₁).1, hts₂, (identifier?_eq_some_iff.mp hw₂).1, hvalue, hsemi]
  rfl

theorem keyDeclaration_sound {stop : Position} {keyword : Span} {ts : List Token}
    {d : KeyDeclaration} {close : Span} {r : Rest ts}
    (h : keyDeclaration stop keyword ts = .ok ((d, close), r)) :
    ∃ name lines, kinds ts =
        .identifier name :: Grammar.braced Grammar.OutLine.kinds lines ++ kinds r.1 ∧
      d.unlocated = Grammar.keyTree name lines := by
  rw [keyDeclaration] at h
  obtain ⟨⟨⟨name, nameSpan⟩, r₁⟩, h₁, h⟩ := bind_eq_ok_iff.mp h
  obtain ⟨⟨span, r₂⟩, h₂, h⟩ := bind_eq_ok_iff.mp h
  obtain ⟨⟨⟨outputs, close'⟩, r₃⟩, h₃, h⟩ := bind_eq_ok_iff.mp h
  obtain ⟨t, hw, hts⟩ := expect_sound h₁
  have hopen := openBlock_sound h₂
  obtain ⟨xs, hxs, htree⟩ := body_sound keyOutput_sound r₂.1 h₃
  obtain ⟨⟨rfl, rfl⟩, rfl⟩ := by simpa [pure_eq_ok_iff] using h
  refine ⟨name, xs, ?_, ?_⟩
  · rw [hts, (identifier?_eq_some_iff.mp hw).1, hopen, hxs]
    simp [Grammar.braced, Rest.after]
  · rw [KeyDeclaration.unlocated, htree]
    rfl

/-! ## Layers -/

theorem plainKey_sound {stop : Position} {ts : List Token} {k : PlainKey} {r : Rest ts}
    (h : plainKey stop ts = .ok (k, r)) :
    ∃ x : Grammar.PlainKey, kinds ts = x.kinds ++ kinds r.1 ∧ k.forget id = x.tree := by
  cases ts with
  | nil => cases h
  | cons t rest =>
    rw [plainKey] at h
    obtain ⟨t, hlook, h⟩ := bind_eq_ok_iff.mp h
    obtain ⟨-, rfl⟩ := look_eq_ok_iff.mp hlook
    cases hk : t.kind with
    | identifier name =>
      simp only [hk] at h
      obtain ⟨rfl, rfl⟩ := by simpa [pure_eq_ok_iff] using h
      exact ⟨.named name, by rw [kinds_cons, hk]; rfl, rfl⟩
    | character c =>
      simp only [hk] at h
      obtain ⟨rfl, rfl⟩ := by simpa [pure_eq_ok_iff] using h
      exact ⟨.character c, by rw [kinds_cons, hk]; rfl, rfl⟩
    | string contents =>
      simp only [hk] at h
      split at h
      · rename_i c hc
        obtain ⟨rfl, rfl⟩ := by simpa [pure_eq_ok_iff] using h
        -- A string of one character is derived from that character.
        have hs : contents = String.singleton c := by
          rw [← String.toList_inj, hc, String.toList_singleton]
        exact ⟨.string c, by rw [kinds_cons, hk, hs]; rfl, rfl⟩
      · cases h
    | symbol s =>
      cases s with
      | openBracket =>
        simp only [hk] at h
        obtain ⟨⟨⟨name, close⟩, r'⟩, h', h⟩ := bind_eq_ok_iff.mp h
        have hname := bracketed_sound (fun t a span hw => (identifier?_eq_some_iff.mp hw).1) h'
        obtain ⟨rfl, rfl⟩ := by simpa [pure_eq_ok_iff] using h
        exact ⟨.layer name, by rw [kinds_cons, hk, hname]; rfl, rfl⟩
      | _ =>
        simp only [hk] at h
        cases h
    | _ =>
      simp only [hk] at h
      cases h

theorem timeout_sound {stop : Position} {ts : List Token} {n : Nat} {close : Span} {r : Rest ts}
    (h : timeout stop ts = .ok (some ((n, close), r))) :
    kinds ts = .symbol .openBracket :: .integer n :: .symbol .closeBracket :: kinds r.1 := by
  cases ts with
  | nil => cases h
  | cons t rest =>
    rw [timeout] at h
    obtain ⟨t', hlook, h⟩ := bind_eq_ok_iff.mp h
    obtain ⟨-, rfl⟩ := look_eq_ok_iff.mp hlook
    dsimp only at h
    split at h
    · rename_i hk
      obtain ⟨found, h₁, h⟩ := bind_eq_ok_iff.mp h
      cases found with
      -- A bracket without a number is left for the next key.
      | none => cases h
      | some p =>
        obtain ⟨⟨n', span⟩, r₁⟩ := p
        obtain ⟨⟨close', r₂⟩, h₂, h⟩ := bind_eq_ok_iff.mp h
        obtain ⟨t₁, hw₁, hts₁⟩ := accept_sound h₁
        obtain ⟨t₂, hw₂, hts₂⟩ := expect_sound h₂
        obtain ⟨⟨rfl, rfl⟩, rfl⟩ := by simpa [pure_eq_ok_iff] using h
        rw [kinds_cons, hk, hts₁, (integer?_eq_some_iff.mp hw₁).1, hts₂,
          (symbol?_eq_some_iff.mp hw₂).1]
        rfl
    · cases h

theorem key_sound {stop : Position} {ts : List Token} {k : Key} {r : Rest ts}
    (h : key stop ts = .ok (k, r)) :
    ∃ x : Grammar.Key, kinds ts = x.kinds ++ kinds r.1 ∧ k.forget id = x.tree := by
  rw [key] at h
  obtain ⟨⟨tap, r₁⟩, h₁, h⟩ := bind_eq_ok_iff.mp h
  obtain ⟨found, h₂, h⟩ := bind_eq_ok_iff.mp h
  obtain ⟨x, hx, htap⟩ := plainKey_sound h₁
  cases found with
  -- No style of holding behind the key: it is a plain one.
  | none =>
    obtain ⟨rfl, rfl⟩ := by simpa [pure_eq_ok_iff] using h
    refine ⟨⟨x, none⟩, ?_, ?_⟩
    · simp [hx, Grammar.Key.kinds]
    · simp [Key.forget, Grammar.Key.tree, htap]
  | some p =>
    obtain ⟨style, r₂⟩ := p
    obtain ⟨⟨held, r₃⟩, h₃, h⟩ := bind_eq_ok_iff.mp h
    obtain ⟨found', h₄, h⟩ := bind_eq_ok_iff.mp h
    obtain ⟨t, hw, hts⟩ := accept_sound h₂
    obtain ⟨y, hy, hheld⟩ := plainKey_sound h₃
    have hstyle := holdStyle?_eq_some_iff.mp hw
    cases found' with
    -- Held, without a timeout.
    | none =>
      obtain ⟨rfl, rfl⟩ := by simpa [pure_eq_ok_iff] using h
      refine ⟨⟨x, some ⟨style, y, none⟩⟩, ?_, ?_⟩
      · rw [hx, hts, hstyle, hy]
        simp [Grammar.Key.kinds, Grammar.Hold.kinds, Grammar.timeoutKinds, Rest.after]
      · simp [Key.forget, Hold.forget, Grammar.Key.tree, Grammar.Hold.tree, htap, hheld]
    | some q =>
      obtain ⟨⟨n, close⟩, r₄⟩ := q
      have htimeout := timeout_sound h₄
      obtain ⟨rfl, rfl⟩ := by simpa [pure_eq_ok_iff] using h
      refine ⟨⟨x, some ⟨style, y, some n⟩⟩, ?_, ?_⟩
      · rw [hx, hts, hstyle, hy, htimeout]
        simp [Grammar.Key.kinds, Grammar.Hold.kinds, Grammar.timeoutKinds, Rest.after]
      · simp [Key.forget, Hold.forget, Grammar.Key.tree, Grammar.Hold.tree, htap, hheld]

theorem chord_sound {stop : Position} {start : Span} {ts : List Token} {c : Chord} {r : Rest ts}
    (h : chord stop start ts = .ok (c, r)) :
    ∃ x : Grammar.Key, kinds ts = x.kinds ++ .symbol .chordClose :: kinds r.1 ∧
      c.key.forget id = x.tree := by
  rw [chord] at h
  obtain ⟨⟨k, r₁⟩, h₁, h⟩ := bind_eq_ok_iff.mp h
  obtain ⟨⟨close, r₂⟩, h₂, h⟩ := bind_eq_ok_iff.mp h
  obtain ⟨x, hx, htree⟩ := key_sound h₁
  obtain ⟨t, hw, hts⟩ := expect_sound h₂
  obtain ⟨rfl, rfl⟩ := by simpa [pure_eq_ok_iff] using h
  exact ⟨x, by rw [hx, hts, (symbol?_eq_some_iff.mp hw).1]; rfl, htree⟩

theorem rowItems_sound {stop : Position} (last : Option Span) (ts : List Token)
    {items : List RowItem} {semi : Span} {r : Rest ts}
    (h : rowItems stop last ts = .ok ((items, semi), r)) :
    ∃ xs : List Grammar.Item,
      kinds ts = xs.flatMap Grammar.Item.kinds ++ .symbol .semicolon :: kinds r.1 ∧
      items.map (RowItem.forget id) = xs.map Grammar.Item.tree ∧ (xs = [] → last ≠ none) := by
  induction last, ts using rowItems.induct generalizing items semi with
  | case1 last =>
    rw [rowItems] at h
    cases h
  | case2 last t rest ihchord ihkey =>
    rw [rowItems] at h
    obtain ⟨t', hlook, h⟩ := bind_eq_ok_iff.mp h
    obtain ⟨-, rfl⟩ := look_eq_ok_iff.mp hlook
    split at h
    -- The semicolon, which needs an item before it.
    · rename_i hk
      obtain ⟨semi', hend, h⟩ := bind_eq_ok_iff.mp h
      obtain ⟨⟨rfl, rfl⟩, rfl⟩ := by simpa [pure_eq_ok_iff] using h
      refine ⟨[], ?_, rfl, ?_⟩
      · rw [kinds_cons, hk]
        rfl
      · rintro - rfl
        cases hend
    · cases h
    -- A chord: its opening symbol is the token at hand.
    · rename_i hk
      obtain ⟨⟨c, r₁⟩, h₁, h⟩ := bind_eq_ok_iff.mp h
      obtain ⟨⟨⟨items', semi'⟩, r₂⟩, h₂, h⟩ := bind_eq_ok_iff.mp h
      obtain ⟨x, hx, hc⟩ := chord_sound h₁
      obtain ⟨xs, hxs, htree, -⟩ := ihchord c r₁ h₂
      obtain ⟨⟨rfl, rfl⟩, rfl⟩ := by simpa [pure_eq_ok_iff] using h
      refine ⟨.chord x :: xs, ?_, ?_, by simp⟩
      · rw [kinds_cons, hk, hx, hxs]
        simp [Grammar.Item.kinds, Rest.after, Rest.behind]
      · rw [List.map_cons, List.map_cons, htree, RowItem.forget, Chord.forget, hc]
        rfl
    -- Everything else has to be a key.
    · obtain ⟨⟨k, r₁⟩, h₁, h⟩ := bind_eq_ok_iff.mp h
      obtain ⟨⟨⟨items', semi'⟩, r₂⟩, h₂, h⟩ := bind_eq_ok_iff.mp h
      obtain ⟨x, hx, hk⟩ := key_sound h₁
      obtain ⟨xs, hxs, htree, -⟩ := ihkey k r₁ h₂
      obtain ⟨⟨rfl, rfl⟩, rfl⟩ := by simpa [pure_eq_ok_iff] using h
      refine ⟨.key x :: xs, ?_, ?_, by simp⟩
      · rw [hx, hxs]
        simp [Grammar.Item.kinds, Rest.after]
      · rw [List.map_cons, List.map_cons, htree, RowItem.forget, hk]
        rfl

theorem layerRow_sound {stop : Position} (ts : List Token) (row : LayerRow) (r : Rest ts)
    (h : layerRow stop ts = .ok (row, r)) :
    ∃ x : Grammar.Row Grammar.Item, kinds ts = x.kinds Grammar.Item.kinds ++ kinds r.1 ∧
      row.forget id = { items := x.items.map Grammar.Item.tree } := by
  rw [layerRow] at h
  obtain ⟨⟨⟨items, semi⟩, r'⟩, h', h⟩ := bind_eq_ok_iff.mp h
  obtain ⟨xs, hxs, htree, hne⟩ := rowItems_sound none ts h'
  obtain ⟨rfl, rfl⟩ := by simpa [pure_eq_ok_iff] using h
  cases xs with
  -- As in a row of the layout, there is at least one item.
  | nil => exact absurd rfl (hne rfl)
  | cons x xs =>
    refine ⟨⟨x, xs⟩, ?_, ?_⟩
    · rw [hxs, Grammar.Row.kinds, List.append_assoc]
      rfl
    · rw [LayerRow.forget, htree]
      rfl

theorem layerBlock_sound {stop : Position} {keyword : Span} {ts : List Token}
    {b : LayerBlock} {close : Span} {r : Rest ts}
    (h : layerBlock stop keyword ts = .ok ((b, close), r)) :
    ∃ name rows, kinds ts = .identifier name ::
        Grammar.braced (Grammar.Row.kinds Grammar.Item.kinds) rows ++ kinds r.1 ∧
      b.forget id = Grammar.layerTree name rows := by
  rw [layerBlock] at h
  obtain ⟨⟨⟨name, nameSpan⟩, r₁⟩, h₁, h⟩ := bind_eq_ok_iff.mp h
  obtain ⟨⟨span, r₂⟩, h₂, h⟩ := bind_eq_ok_iff.mp h
  obtain ⟨⟨⟨rows, close'⟩, r₃⟩, h₃, h⟩ := bind_eq_ok_iff.mp h
  obtain ⟨t, hw, hts⟩ := expect_sound h₁
  have hopen := openBlock_sound h₂
  obtain ⟨xs, hxs, htree⟩ := body_sound layerRow_sound r₂.1 h₃
  obtain ⟨⟨rfl, rfl⟩, rfl⟩ := by simpa [pure_eq_ok_iff] using h
  refine ⟨name, xs, ?_, ?_⟩
  · rw [hts, (identifier?_eq_some_iff.mp hw).1, hopen, hxs]
    simp [Grammar.braced, Rest.after]
  · rw [LayerBlock.forget, htree]
    rfl

/-! ## Whole descriptions -/

def Block.unlocated : Block → Block
  | .layout b => .layout b.unlocated
  | .options b => .options b.unlocated
  | .key d => .key d.unlocated
  | .layer b => .layer (b.forget id)

def Block.ofDerivation : Grammar.Block → Block
  | .layout rows => .layout (Grammar.layoutTree rows)
  | .options backend lines => .options (Grammar.optionsTree backend lines)
  | .key name lines => .key (Grammar.keyTree name lines)
  | .layer name rows => .layer (Grammar.layerTree name rows)

theorem block_sound {stop : Position} {ts : List Token} {b : Block} {close : Span} {r : Rest ts}
    (h : block stop ts = .ok ((b, close), r)) :
    ∃ x : Grammar.Block, kinds ts = x.kinds ++ kinds r.1 ∧
      b.unlocated = Block.ofDerivation x := by
  cases ts with
  | nil => cases h
  | cons t rest =>
    rw [block] at h
    obtain ⟨t', hlook, h⟩ := bind_eq_ok_iff.mp h
    obtain ⟨-, rfl⟩ := look_eq_ok_iff.mp hlook
    -- One case for each word that opens a block.
    split at h
    · rename_i hk
      obtain ⟨⟨⟨b', close'⟩, r'⟩, h', h⟩ := bind_eq_ok_iff.mp h
      obtain ⟨rows, hrows, htree⟩ := layoutBlock_sound h'
      obtain ⟨⟨rfl, rfl⟩, rfl⟩ := by simpa [pure_eq_ok_iff] using h
      exact ⟨.layout rows, by rw [kinds_cons, hk, hrows]; rfl, congrArg Block.layout htree⟩
    · rename_i hk
      obtain ⟨⟨⟨b', close'⟩, r'⟩, h', h⟩ := bind_eq_ok_iff.mp h
      obtain ⟨backend, lines, hlines, htree⟩ := optionsBlock_sound h'
      obtain ⟨⟨rfl, rfl⟩, rfl⟩ := by simpa [pure_eq_ok_iff] using h
      exact ⟨.options backend lines, by rw [kinds_cons, hk, hlines]; rfl,
        congrArg Block.options htree⟩
    · rename_i hk
      obtain ⟨⟨⟨d, close'⟩, r'⟩, h', h⟩ := bind_eq_ok_iff.mp h
      obtain ⟨name, lines, hlines, htree⟩ := keyDeclaration_sound h'
      obtain ⟨⟨rfl, rfl⟩, rfl⟩ := by simpa [pure_eq_ok_iff] using h
      exact ⟨.key name lines, by rw [kinds_cons, hk, hlines]; rfl, congrArg Block.key htree⟩
    · rename_i hk
      obtain ⟨⟨⟨b', close'⟩, r'⟩, h', h⟩ := bind_eq_ok_iff.mp h
      obtain ⟨name, rows, hrows, htree⟩ := layerBlock_sound h'
      obtain ⟨⟨rfl, rfl⟩, rfl⟩ := by simpa [pure_eq_ok_iff] using h
      exact ⟨.layer name rows, by rw [kinds_cons, hk, hrows]; rfl, congrArg Block.layer htree⟩
    · cases h

/-- A block leaves at most one layout known: its own, or the one that was known before. -/
theorem checkLayout_count {first first' : Option Span} {b : Block} {x : Grammar.Block}
    (hb : b.unlocated = Block.ofDerivation x) (h : checkLayout first b = .ok first') :
    (Grammar.File.layouts [x]).length + first.toList.length = first'.toList.length := by
  cases b <;> cases x <;> try cases hb
  -- Only a layout block changes what is known, and a second one is refused.
  · cases first with
    | some span => cases h
    | none =>
      obtain rfl := Except.ok.inj h
      rfl
  all_goals
    obtain rfl := Except.ok.inj h
    simp [Grammar.File.layouts, Grammar.Block.layout?]

/-- The blocks of a file are derived one after the other, and at most one of them is a layout, none
behind a layout that was found before. -/
theorem blocks_sound {stop : Position} (first : Option Span) (ts : List Token)
    {found : List (Block × Span)} (h : blocks stop first ts = .ok found) :
    ∃ f : Grammar.File, kinds ts = f.kinds ∧
      found.map (·.1.unlocated) = f.map Block.ofDerivation ∧
      f.layouts.length + first.toList.length ≤ 1 := by
  -- The count carries the induction: a layout that is known leaves no room for another.
  induction first, ts using blocks.induct generalizing found with
  | case1 first =>
    rw [blocks] at h
    obtain rfl := Except.ok.inj h
    exact ⟨[], rfl, rfl, by cases first <;> simp [Grammar.File.layouts]⟩
  | case2 first t rest ih =>
    rw [blocks] at h
    obtain ⟨⟨⟨b, close⟩, r⟩, h₁, h⟩ := bind_eq_ok_iff.mp h
    obtain ⟨first', h₂, h⟩ := bind_eq_ok_iff.mp h
    obtain ⟨others, h₃, h⟩ := bind_eq_ok_iff.mp h
    obtain ⟨x, hx, hb⟩ := block_sound h₁
    obtain ⟨f, hf, hothers, hcount⟩ := ih r first' h₃
    obtain rfl := pure_eq_ok_iff.mp h
    refine ⟨x :: f, ?_, ?_, ?_⟩
    · rw [hx, hf]
      rfl
    · rw [List.map_cons, List.map_cons, hb, hothers]
    · have hx := checkLayout_count hb h₂
      rw [Grammar.File.layouts_cons, List.length_append]
      omega

/-- Picking the blocks of one kind: `π` picks from what was found, `σ` from the derivations, and `ρ`
from the blocks without places that both stand for. -/
theorem filterMap_unlocated {γ δ : Type} {found : List (Block × Span)} {f : Grammar.File}
    (h : found.map (·.1.unlocated) = f.map Block.ofDerivation) {π : Block × Span → Option γ}
    {forget : γ → δ} {σ : Grammar.Block → Option δ} (ρ : Block → Option δ)
    (hπ : ∀ b, (π b).map forget = ρ b.1.unlocated) (hσ : ∀ x, σ x = ρ (Block.ofDerivation x)) :
    (found.filterMap π).map forget = f.filterMap σ := by
  have hρ := congrArg (List.filterMap ρ) h
  rw [List.filterMap_map, List.filterMap_map] at hρ
  rw [List.map_filterMap, funext hπ, funext hσ]
  exact hρ

/-- What is assembled from blocks is the tree of their derivations. -/
theorem assemble_unlocated {layout : LayoutBlock} {found : List (Block × Span)} {f : Grammar.File}
    {rows : List (Grammar.Row Grammar.Cell)} (hlayout : layout.unlocated = Grammar.layoutTree rows)
    (h : found.map (·.1.unlocated) = f.map Block.ofDerivation) :
    (assemble layout found).unlocated = f.tree rows := by
  unfold Description.unlocated Description.forget Grammar.File.tree assemble
  congr 1
  · exact filterMap_unlocated h (fun b => (assemble layout [(b, {})]).options.head?)
      (by rintro ⟨_ | _ | _ | _, _⟩ <;> rfl) (by rintro (_ | _ | _ | _) <;> rfl)
  · exact filterMap_unlocated h (fun b => (assemble layout [(b, {})]).keys.head?)
      (by rintro ⟨_ | _ | _ | _, _⟩ <;> rfl) (by rintro (_ | _ | _ | _) <;> rfl)
  · exact filterMap_unlocated h (fun b => (assemble layout [(b, {})]).layers.head?)
      (by rintro ⟨_ | _ | _ | _, _⟩ <;> rfl) (by rintro (_ | _ | _ | _) <;> rfl)

theorem layoutOf?_unlocated {found : List (Block × Span)} {f : Grammar.File}
    (h : found.map (·.1.unlocated) = f.map Block.ofDerivation) :
    (layoutOf? found).map LayoutBlock.unlocated = f.layouts.head?.map Grammar.layoutTree := by
  rw [layoutOf?, ← List.head?_filterMap, ← List.head?_map]
  refine (congrArg List.head? (filterMap_unlocated h
    (σ := fun x => (Grammar.Block.layout? x).map Grammar.layoutTree)
    (fun b => layoutOf? [(b, {})]) (by rintro ⟨_ | _ | _ | _, _⟩ <;> rfl)
    (by rintro (_ | _ | _ | _) <;> rfl))).trans ?_
  rw [← List.map_filterMap, List.head?_map]
  rfl

/-- A description that is read has a derivation with one layout, whose tree it is. -/
theorem description_sound {s : TokenStream} {d : Description} (h : description s = .ok d) :
    ∃ (f : Grammar.File) (rows : List (Grammar.Row Grammar.Cell)),
      kinds s.tokens = f.kinds ∧ f.layouts = [rows] ∧ d.unlocated = f.tree rows := by
  rw [description] at h
  obtain ⟨found, h₁, h⟩ := bind_eq_ok_iff.mp h
  obtain ⟨f, hf, hfound, hcount⟩ := blocks_sound none s.tokens h₁
  have hlayout := layoutOf?_unlocated hfound
  split at h
  · rename_i layout hl
    obtain rfl := pure_eq_ok_iff.mp h
    rw [hl] at hlayout
    -- The count leaves one layout, and there is one because it was found.
    match hls : f.layouts, hlayout, hcount with
    | [rows], hlayout, _ =>
      exact ⟨f, rows, hf, hls, assemble_unlocated (Option.some.inj hlayout) hfound⟩
  · cases h

end Keyplan.Parser
