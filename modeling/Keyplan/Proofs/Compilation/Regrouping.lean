import Keyplan.Proofs.Format.Idempotence

/-!
# Regrouping — only the tokens of a source matter, and not the order of its blocks

Two sources whose tokens are the same once the blocks of one kind are put together are read as the
same description, up to places. Nothing behind the reader looks at places but to report them, so
both sources compile to the same text, or fail with diagnostics that say the same.
-/

namespace Keyplan

open Outcome
open PlainKey (Meaning)

namespace Grammar

open Token (Kind)

/-! ## 1. Blocks of tokens -/

/-- Cuts tokens behind every closing brace, which is where the blocks of a file end. -/
def cutBlocks : List Kind → List (List Kind)
  | [] => []
  | k :: ks =>
    if k = .symbol .closeBrace then [k] :: cutBlocks ks
    else match cutBlocks ks with
      | [] => [[k]]
      | b :: bs => (k :: b) :: bs

/-- The words that blocks start with, one for each kind of block. -/
def keywords : List String := ["layout", "options", "key", "layer"]

/-- The tokens of a file with the blocks of one kind put together. The kinds are in the order of
their keywords, and blocks of one kind stay in the order they have. -/
def regroup (ks : List Kind) : List Kind :=
  keywords.flatMap fun word =>
    ((cutBlocks ks).filter fun b => decide (b.head? = some (.identifier word))).flatten

theorem cutBlocks_append {inner : List Kind} (h : Kind.symbol .closeBrace ∉ inner)
    (ks : List Kind) :
    cutBlocks (inner ++ .symbol .closeBrace :: ks) =
      (inner ++ [.symbol .closeBrace]) :: cutBlocks ks := by
  induction inner with
  | nil => rw [List.nil_append, cutBlocks, if_pos rfl, List.nil_append]
  | cons k inner ih =>
    rw [List.mem_cons, not_or] at h
    rw [List.cons_append, cutBlocks, if_neg (Ne.symm h.1), ih h.2]
    rfl

/-! ## 2. Blocks of a derivation end at their only closing brace -/

theorem Key.closeBrace_not_mem (k : Key) : Kind.symbol .closeBrace ∉ k.kinds := by
  have hplain : ∀ x : PlainKey, Kind.symbol .closeBrace ∉ x.kinds := by
    intro x
    cases x <;> simp [PlainKey.kinds]
  obtain ⟨tap, hold⟩ := k
  cases hold with
  | none => simp [Key.kinds, hplain]
  | some h =>
    obtain ⟨style, held, timeout⟩ := h
    cases style <;> cases timeout <;>
      simp [Key.kinds, Hold.kinds, styleKind, timeoutKinds, hplain]

theorem Row.closeBrace_not_mem {α : Type} {item : α → List Kind}
    (h : ∀ a, Kind.symbol .closeBrace ∉ item a) (r : Row α) :
    Kind.symbol .closeBrace ∉ r.kinds item := by
  simp [Row.kinds, h]

theorem Cell.closeBrace_not_mem (c : Cell) : Kind.symbol .closeBrace ∉ c.kinds := by
  cases c <;> simp [Cell.kinds]

theorem Item.closeBrace_not_mem (i : Item) : Kind.symbol .closeBrace ∉ i.kinds := by
  cases i <;> simp [Item.kinds, Key.closeBrace_not_mem]

theorem OptionLine.closeBrace_not_mem (o : OptionLine) : Kind.symbol .closeBrace ∉ o.kinds := by
  simp [OptionLine.kinds]

theorem OutLine.closeBrace_not_mem (o : OutLine) : Kind.symbol .closeBrace ∉ o.kinds := by
  simp [OutLine.kinds]

theorem braced_eq_concat {α : Type} {part : α → List Kind}
    (h : ∀ a, Kind.symbol .closeBrace ∉ part a) (parts : List α) :
    ∃ inner, Kind.symbol .closeBrace ∉ inner ∧
      braced part parts = inner ++ [.symbol .closeBrace] := by
  refine ⟨.symbol .openBrace :: parts.flatMap part, ?_, rfl⟩
  simp [h]

theorem Block.kinds_eq_concat (b : Block) :
    ∃ inner, Kind.symbol .closeBrace ∉ inner ∧ b.kinds = inner ++ [.symbol .closeBrace] := by
  cases b with
  | layout rows =>
    obtain ⟨inner, hinner, h⟩ := braced_eq_concat
      (Row.closeBrace_not_mem Cell.closeBrace_not_mem) rows
    exact ⟨.identifier "layout" :: inner, by simp [hinner], by rw [Block.kinds, h]; rfl⟩
  | options backend lines =>
    obtain ⟨inner, hinner, h⟩ := braced_eq_concat OptionLine.closeBrace_not_mem lines
    exact ⟨.identifier "options" :: .identifier backend :: inner, by simp [hinner],
      by rw [Block.kinds, h]; rfl⟩
  | key name lines =>
    obtain ⟨inner, hinner, h⟩ := braced_eq_concat OutLine.closeBrace_not_mem lines
    exact ⟨.identifier "key" :: .identifier name :: inner, by simp [hinner],
      by rw [Block.kinds, h]; rfl⟩
  | layer name rows =>
    obtain ⟨inner, hinner, h⟩ := braced_eq_concat
      (Row.closeBrace_not_mem Item.closeBrace_not_mem) rows
    exact ⟨.identifier "layer" :: .identifier name :: inner, by simp [hinner],
      by rw [Block.kinds, h]; rfl⟩

theorem cutBlocks_kinds (f : File) : cutBlocks f.kinds = f.map Block.kinds := by
  induction f with
  | nil => rfl
  | cons b f ih =>
    obtain ⟨inner, hinner, hb⟩ := b.kinds_eq_concat
    show cutBlocks (b.kinds ++ File.kinds f) = b.kinds :: f.map Block.kinds
    rw [hb, List.append_assoc, List.singleton_append, cutBlocks_append hinner, ih]

/-! ## 3. Files with the blocks of one kind put together -/

def Block.keyword : Block → String
  | layout _ => "layout"
  | options _ _ => "options"
  | key _ _ => "key"
  | layer _ _ => "layer"

def File.grouped (f : File) : File :=
  keywords.flatMap fun word => f.filter fun b => decide (b.keyword = word)

theorem regroup_kinds (f : File) : regroup f.kinds = f.grouped.kinds := by
  have hhead : ∀ b : Block, b.kinds.head? = some (.identifier b.keyword) := by
    intro b
    cases b <;> rfl
  rw [regroup, cutBlocks_kinds, File.kinds, File.grouped, List.flatMap_assoc]
  apply List.flatMap_congr
  intro word _
  rw [List.filter_map, List.flatMap_def]
  simp only [Function.comp_def, hhead, Option.some.injEq, Kind.identifier.injEq]

/-- What is picked from blocks of one kind is picked from the same blocks in the same order. -/
theorem File.filterMap_grouped {γ : Type} {pick : Block → Option γ} (word : String)
    (hword : word ∈ keywords) (hpick : ∀ b, b.keyword ≠ word → pick b = none) (f : File) :
    f.grouped.filterMap pick = f.filterMap pick := by
  have hpart : ∀ w, (f.filter fun b => decide (b.keyword = w)).filterMap pick =
      if w = word then f.filterMap pick else [] := by
    intro w
    rw [List.filterMap_filter]
    by_cases hw : w = word
    · rw [if_pos hw]
      apply List.filterMap_congr
      intro b _
      by_cases hb : b.keyword = w
      · simp [hb]
      · simp [hb, hpick b (hw ▸ hb)]
    · rw [if_neg hw]
      apply List.filterMap_eq_nil_iff.mpr
      intro b _
      by_cases hb : b.keyword = w
      · simp [hb, hpick b (hb ▸ hw)]
      · simp [hb]
  rw [File.grouped, List.filterMap_flatMap]
  simp only [hpart]
  -- The word is one of four, and the others add nothing.
  simp only [keywords, List.mem_cons, List.not_mem_nil, or_false] at hword
  rcases hword with rfl | rfl | rfl | rfl <;> simp [keywords]

theorem File.layouts_grouped (f : File) : f.grouped.layouts = f.layouts := by
  apply File.filterMap_grouped "layout" (by simp [keywords])
  intro b hb
  cases b <;> simp_all [Block.keyword, Block.layout?]

theorem File.tree_grouped (f : File) (rows : List (Row Cell)) :
    f.grouped.tree rows = f.tree rows := by
  have hoptions : f.grouped.filterMap Block.options? = f.filterMap Block.options? := by
    apply File.filterMap_grouped "options" (by simp [keywords])
    intro b hb
    cases b <;> simp_all [Block.keyword, Block.options?]
  have hkeys : f.grouped.filterMap Block.key? = f.filterMap Block.key? := by
    apply File.filterMap_grouped "key" (by simp [keywords])
    intro b hb
    cases b <;> simp_all [Block.keyword, Block.key?]
  have hlayers : f.grouped.filterMap Block.layer? = f.filterMap Block.layer? := by
    apply File.filterMap_grouped "layer" (by simp [keywords])
    intro b hb
    cases b <;> simp_all [Block.keyword, Block.layer?]
  rw [File.tree_eq, File.tree_eq, hoptions, hkeys, hlayers]

theorem File.tree_of_regroup {f g : File} {rows rows' : List (Row Cell)}
    (hf : f.layouts = [rows]) (hg : g.layouts = [rows'])
    (h : regroup f.kinds = regroup g.kinds) : f.tree rows = g.tree rows' := by
  rw [regroup_kinds, regroup_kinds] at h
  have hgrouped : f.grouped = g.grouped := File.kinds_inj h
  have hrows : [rows] = [rows'] := by
    rw [← hf, ← hg, ← File.layouts_grouped f, ← File.layouts_grouped g, hgrouped]
  rw [← File.tree_grouped f, ← File.tree_grouped g, hgrouped, (List.cons.inj hrows).1]

end Grammar

/-! ## 4. Compiling -/

/-- Without its places a chord in the wrong place is reported as the same one. -/
theorem Layer.reportsChords_id : Layer.ReportsChords (fun d e => d.gist = e) id := by
  intro node previous next c
  have htext : (c.forget id).text = c.text :=
    congrArg String.ofList (c.spelling_forget fun _ => rfl)
  have hspan : ∀ i : RowItem, (i.forget id).span = {} := by
    intro i
    cases i <;> rfl
  unfold Layer.badChord
  rw [htext]
  cases previous <;> cases next <;>
    simp only [Option.map_none, Option.map_some, hspan] <;> rfl

theorem Target.emit_unlocated (t : Target) (m : Keymap) :
    Tracks (fun d e => d.gist = e) id (t.emit m) (t.emit (m.forget id)) := by
  by_cases ht : t = .format
  · rw [ht]
    exact (Format.format_tracks (fun _ => rfl) (fun _ => rfl) m).map _
  · exact Target.emit_tracks (fun _ => rfl) (fun _ => rfl) ht m

/-- What a description compiles to does not depend on its places. -/
theorem resolve_emit_tracks (d : Description) (defaults : List DefaultOption) (t : Target) :
    Tracks (fun d e => d.gist = e) id (Keymap.resolve d defaults >>= t.emit)
      (Keymap.resolve d.unlocated defaults >>= t.emit) := by
  apply (Keymap.resolve_tracks (fun _ => rfl) Layer.reportsChords_id d defaults).bind
  intro m
  exact t.emit_unlocated m

/-- Two sources that can be read, and whose tokens are the same once the blocks of one kind are put
together, compile to the same text or fail with diagnostics that say the same. -/
theorem compile_of_regrouped {origin origin' : Origin} {d d' : Description}
    (hparse : Description.parse origin.text = .ok d)
    (hparse' : Description.parse origin'.text = .ok d')
    (htokens : Grammar.regroup (Parser.kinds (TokenStream.ofText origin.text).tokens) =
      Grammar.regroup (Parser.kinds (TokenStream.ofText origin'.text).tokens))
    (defaults : List DefaultOption) (t : Target) :
    SameResult (compile origin defaults t) (compile origin' defaults t) := by
  obtain ⟨f, rows, hf, hrows, htree⟩ := Parser.description_sound hparse
  obtain ⟨f', rows', hf', hrows', htree'⟩ := Parser.description_sound hparse'
  rw [hf, hf'] at htokens
  have hsame : d.unlocated = d'.unlocated := by
    rw [htree, htree', Grammar.File.tree_of_regroup hrows hrows' htokens]
  have hread : Keymap.read origin.text defaults = Keymap.resolve d defaults := by
    rw [Keymap.read, hparse]
    rfl
  have hread' : Keymap.read origin'.text defaults = Keymap.resolve d' defaults := by
    rw [Keymap.read, hparse']
    rfl
  rw [compile_eq_quoting, compile_eq_quoting, hread, hread']
  -- Both are compared with what the description gives without its places.
  apply sameResult_of_tracks (resolve_emit_tracks d defaults t)
  rw [hsame]
  exact resolve_emit_tracks d' defaults t

/-- A description with a block of every kind. -/
def inOrder : Origin where
  text := Text.ofString ("layout \x7b 2k; \x7d options diagram \x7b keyboard: \"b\"; \x7d " ++
    "key x \x7b out diagram: \"y\"; out firmware: \"z\"; \x7d layer l \x7b '1' >'2'< x; \x7d")

/-- The same blocks in another order, with other blanks and another spelling of the count. -/
def outOfOrder : Origin where
  text := Text.ofString ("layer l\x7b'1'>'2'<x;\x7d\r\nkey x\x7bout diagram:\"y\";\n" ++
    "out firmware:\"z\";\x7d options\tdiagram \x7b keyboard: \"b\"; \x7d layout \x7b 02k; \x7d")

theorem compile_of_regrouped_outOfOrder : ∃ d d',
    Description.parse inOrder.text = .ok d ∧ Description.parse outOfOrder.text = .ok d' ∧
    ∀ t, SameResult (compile inOrder [] t) (compile outOfOrder [] t) := by
  have hrun : ((Description.parse inOrder.text).toOption.isSome &&
      (Description.parse outOfOrder.text).toOption.isSome) = true := by
    decide +kernel
  have htokens : Grammar.regroup (Parser.kinds (TokenStream.ofText inOrder.text).tokens) =
      Grammar.regroup (Parser.kinds (TokenStream.ofText outOfOrder.text).tokens) := by
    decide +kernel
  obtain ⟨hd, hd'⟩ := Bool.and_eq_true_iff.mp hrun
  obtain ⟨d, hd⟩ := Option.isSome_iff_exists.mp hd
  obtain ⟨d', hd'⟩ := Option.isSome_iff_exists.mp hd'
  have hparse := toOption_eq_some_iff.mp hd
  have hparse' := toOption_eq_some_iff.mp hd'
  exact ⟨d, d', hparse, hparse', compile_of_regrouped hparse hparse' htokens []⟩

end Keyplan
