import Keyplan.Proofs.Grammar.Completeness
import Keyplan.Proofs.Grammar.Shapes
import Keyplan.Proofs.Token.Order

/-!
# Extents — every node stands where its tokens stand

The place that a reader gives a node is the extent of the tokens that the grammar derives from it.
So nodes lie within the node around them, and nodes side by side stand one behind the other.
-/

namespace Keyplan

open Token (Kind Ordered extent)

/-! ## 1. Tokens that are read -/

namespace Parser

open Outcome

/-- Tokens that mean `ks`, and over which the shapes `ss` have the outlines `os`. -/
structure Outlined (seg : List Token) (ks : List Kind) (ss : List Shape) (os : List Outline) :
    Prop where
  kinds_eq : kinds seg = ks
  length_eq : seg.length = Shape.sizes ss
  outlines_eq : Shape.outlines ss seg = os

namespace Outlined

variable {seg seg' : List Token} {t : Token} {k : Kind} {ks ks' : List Kind} {ss ss' : List Shape}
  {os os' : List Outline}

theorem nil : Outlined [] [] [] [] :=
  ⟨rfl, Shape.sizes_nil.symm, Shape.outlines_nil []⟩

theorem token (h : t.kind = k) : Outlined [t] [k] [.token] [] :=
  ⟨by rw [← h]; rfl, by simp, by simp⟩

theorem append (h : Outlined seg ks ss os) (h' : Outlined seg' ks' ss' os') :
    Outlined (seg ++ seg') (ks ++ ks') (ss ++ ss') (os ++ os') := by
  refine ⟨?_, ?_, ?_⟩
  · rw [← h.kinds_eq, ← h'.kinds_eq]
    exact List.map_append
  · rw [List.length_append, Shape.sizes_append, h.length_eq, h'.length_eq]
  · rw [Shape.outlines_append h.length_eq, h.outlines_eq, h'.outlines_eq]

theorem node (h : Outlined seg ks ss os) : Outlined seg ks [.node ss] [.node (extent seg) os] := by
  refine ⟨h.kinds_eq, ?_, ?_⟩
  · rw [Shape.sizes_node, Shape.sizes_nil, h.length_eq, Nat.add_zero]
  · rw [Shape.outlines_node h.length_eq, h.outlines_eq]

theorem mark (h : t.kind = k) : Outlined [t] [k] [.mark] [.mark t.span] :=
  (token h).node

theorem ne_nil (h : Outlined seg ks ss os) (hks : ks ≠ []) : seg ≠ [] := by
  rintro rfl
  exact hks h.kinds_eq.symm

theorem span_eq {o : Outline} (h : Outlined seg ks [.node ss] [o]) : o.span = extent seg := by
  have hsize : seg.length = Shape.sizes ss := by simpa using h.length_eq
  have ho := h.outlines_eq
  rw [Shape.outlines_node hsize] at ho
  rw [← (List.cons.inj ho).1]
  rfl

theorem ofKinds (h : kinds seg = ks) : Outlined seg ks (Grammar.tokens ks) [] := by
  subst h
  induction seg with
  | nil => exact nil
  | cons t seg ih => exact (token rfl).append ih

end Outlined

theorem taken_trans {ts seg rest seg' rest' : List Token} (h : ts = seg ++ rest)
    (h' : rest = seg' ++ rest') : ts = seg ++ seg' ++ rest' := by
  rw [h, h', List.append_assoc]

theorem bracketed_tokens {α : Type} {stop : Position} {want : Token → Option (α × Span)}
    {fault : SyntaxFault} {kind : α → Kind}
    (hwant : ∀ t a span, want t = some (a, span) → t.kind = kind a)
    {ts : List Token} {a : α} {close : Span} {r : Rest ts}
    (h : bracketed stop want fault ts = .ok ((a, close), r)) :
    ∃ t c, ts = t :: c :: r.1 ∧ t.kind = kind a ∧ c.kind = .symbol .closeBracket ∧
      close = c.span := by
  rw [bracketed] at h
  obtain ⟨⟨⟨a', span⟩, r₁⟩, h₁, h⟩ := bind_eq_ok_iff.mp h
  obtain ⟨⟨close', r₂⟩, h₂, h⟩ := bind_eq_ok_iff.mp h
  obtain ⟨t, hts, -, hw⟩ := expect_eq_ok_iff.mp h₁
  obtain ⟨c, hrest, -, hc⟩ := expect_eq_ok_iff.mp h₂
  obtain ⟨⟨rfl, rfl⟩, rfl⟩ := by simpa [pure_eq_ok_iff] using h
  obtain ⟨hc, hspan⟩ := symbol?_eq_some_iff.mp hc
  exact ⟨t, c, hts.trans (congrArg (t :: ·) hrest), hwant t a' span hw, hc, hspan⟩

/-! ## 2. Layers -/

theorem plainKey_extent {stop : Position} {ts : List Token} {k : PlainKey} {r : Rest ts}
    (hordered : Ordered ts) (h : plainKey stop ts = .ok (k, r)) :
    ∃ (x : Grammar.PlainKey) (seg : List Token), ts = seg ++ r.1 ∧
      Outlined seg x.kinds [x.shape] [k.outline] := by
  -- Only a layer takes more than one token.
  have hone : ∀ {t : Token} (x : Grammar.PlainKey) (meaning : PlainKey.Meaning),
      kinds [t] = x.kinds → Outlined [t] x.kinds [x.shape] [(PlainKey.mk meaning t.span).outline] :=
    fun x meaning hx => (Outlined.ofKinds hx).node
  cases ts with
  | nil => cases h
  | cons t rest =>
    rw [plainKey] at h
    obtain ⟨t', hlook, h⟩ := bind_eq_ok_iff.mp h
    obtain ⟨-, rfl⟩ := look_eq_ok_iff.mp hlook
    cases hk : t'.kind with
    | identifier name =>
      simp only [hk] at h
      obtain ⟨rfl, rfl⟩ := by simpa [pure_eq_ok_iff] using h
      exact ⟨.named name, [t'], rfl, hone _ _ (by rw [kinds_cons, hk]; rfl)⟩
    | character c =>
      simp only [hk] at h
      obtain ⟨rfl, rfl⟩ := by simpa [pure_eq_ok_iff] using h
      exact ⟨.character c, [t'], rfl, hone _ _ (by rw [kinds_cons, hk]; rfl)⟩
    | string contents =>
      simp only [hk] at h
      split at h
      · rename_i c hc
        obtain ⟨rfl, rfl⟩ := by simpa [pure_eq_ok_iff] using h
        have hcontents : contents = String.singleton c := by
          rw [← String.toList_inj, hc, String.toList_singleton]
        exact ⟨.string c, [t'], rfl, hone _ _ (by rw [kinds_cons, hk, hcontents]; rfl)⟩
      · cases h
    | symbol s =>
      cases s with
      | openBracket =>
        simp only [hk] at h
        obtain ⟨⟨⟨name, close⟩, r'⟩, h', h⟩ := bind_eq_ok_iff.mp h
        obtain ⟨n, c, hrest, hn, hc, rfl⟩ :=
          bracketed_tokens (fun t a span hw => (identifier?_eq_some_iff.mp hw).1) h'
        obtain ⟨rfl, rfl⟩ := by simpa [pure_eq_ok_iff] using h
        have hts : t' :: rest = t' :: [n] ++ [c] ++ r'.1 := congrArg (t' :: ·) hrest
        have hseg := (hts ▸ hordered).left
        refine ⟨.layer name, t' :: [n] ++ [c], hts, ?_⟩
        rw [PlainKey.outline, hseg.join_ends]
        exact (Outlined.ofKinds (by simp [hk, hn, hc, Grammar.PlainKey.kinds])).node
      | _ =>
        simp only [hk] at h
        cases h
    | _ =>
      simp only [hk] at h
      cases h

theorem timeout_tokens {stop : Position} {ts : List Token} {n : Nat} {close : Span} {r : Rest ts}
    (h : timeout stop ts = .ok (some ((n, close), r))) :
    ∃ o t c, ts = [o, t] ++ [c] ++ r.1 ∧ kinds ([o, t] ++ [c]) = Grammar.timeoutKinds (some n) ∧
      close = c.span := by
  cases ts with
  | nil => cases h
  | cons o rest =>
    rw [timeout] at h
    obtain ⟨o', hlook, h⟩ := bind_eq_ok_iff.mp h
    obtain ⟨-, rfl⟩ := look_eq_ok_iff.mp hlook
    dsimp only at h
    split at h
    · rename_i ho
      obtain ⟨found, h₁, h⟩ := bind_eq_ok_iff.mp h
      cases found with
      | none => cases h
      | some p =>
        obtain ⟨⟨n', span⟩, r₁⟩ := p
        obtain ⟨⟨close', r₂⟩, h₂, h⟩ := bind_eq_ok_iff.mp h
        obtain ⟨t, hrest, -, ht⟩ := accept_eq_some_iff.mp h₁
        obtain ⟨c, hbehind, -, hc⟩ := expect_eq_ok_iff.mp h₂
        obtain ⟨⟨rfl, rfl⟩, rfl⟩ := by simpa [pure_eq_ok_iff] using h
        obtain ⟨hc, hspan⟩ := symbol?_eq_some_iff.mp hc
        refine ⟨o', t, c, congrArg (o' :: ·) (hrest.trans (congrArg (t :: ·) hbehind)), ?_, hspan⟩
        simp [ho, hc, (integer?_eq_some_iff.mp ht).1, Grammar.timeoutKinds]
    · cases h

theorem key_extent {stop : Position} {ts : List Token} {k : Key} {r : Rest ts}
    (hordered : Ordered ts) (h : key stop ts = .ok (k, r)) :
    ∃ (x : Grammar.Key) (seg : List Token), ts = seg ++ r.1 ∧
      Outlined seg x.kinds [x.shape] [k.outline] := by
  have hnonempty : ∀ x : Grammar.PlainKey, x.kinds ≠ [] := by
    intro x
    cases x <;> simp [Grammar.PlainKey.kinds]
  rw [key] at h
  obtain ⟨⟨tap, r₁⟩, h₁, h⟩ := bind_eq_ok_iff.mp h
  obtain ⟨found, h₂, h⟩ := bind_eq_ok_iff.mp h
  obtain ⟨x, seg, hts, htap⟩ := plainKey_extent hordered h₁
  have htapspan : tap.span = extent seg := htap.span_eq
  cases found with
  | none =>
    obtain ⟨rfl, rfl⟩ := by simpa [pure_eq_ok_iff] using h
    have hkinds : (Grammar.Key.mk x none).kinds = x.kinds := by simp [Grammar.Key.kinds]
    refine ⟨⟨x, none⟩, seg, hts, ?_⟩
    rw [Key.outline, htapspan, hkinds]
    exact htap.node
  | some p =>
    obtain ⟨style, r₂⟩ := p
    obtain ⟨⟨held, r₃⟩, h₃, h⟩ := bind_eq_ok_iff.mp h
    obtain ⟨found', h₄, h⟩ := bind_eq_ok_iff.mp h
    obtain ⟨t, hrest₁, -, hw⟩ := accept_eq_some_iff.mp h₂
    have hstyle := holdStyle?_eq_some_iff.mp hw
    have hts₂ : ts = seg ++ [t] ++ r₂.1 := taken_trans hts hrest₁
    obtain ⟨y, seg', hrest₂, hheld⟩ := plainKey_extent (hts₂ ▸ hordered).right h₃
    have hheldspan : held.span = extent seg' := hheld.span_eq
    have hts₃ : ts = seg ++ [t] ++ seg' ++ r₃.1 := taken_trans hts₂ hrest₂
    have hseg := (hts₃ ▸ hordered).left
    have hjoin : tap.span.join held.span = extent (seg ++ [t] ++ seg') := by
      rw [htapspan, hheldspan]
      exact hseg.join_extent (htap.ne_nil (hnonempty x)) (hheld.ne_nil (hnonempty y))
    -- Both plain keys and the style between them: all of the key, unless a timeout follows.
    have hpair := (htap.append (.token hstyle)).append hheld
    cases found' with
    | none =>
      obtain ⟨rfl, rfl⟩ := by simpa [pure_eq_ok_iff] using h
      have hkinds : (Grammar.Key.mk x (some ⟨style, y, none⟩)).kinds =
          x.kinds ++ [Grammar.styleKind style] ++ y.kinds := by
        simp [Grammar.Key.kinds, Grammar.Hold.kinds, Grammar.timeoutKinds]
      refine ⟨⟨x, some ⟨style, y, none⟩⟩, seg ++ [t] ++ seg', hts₃, ?_⟩
      rw [Key.outline, hjoin, hkinds]
      exact hpair.node
    | some q =>
      obtain ⟨⟨n, close⟩, r₄⟩ := q
      obtain ⟨o, m, c, hrest₃, htimeout, rfl⟩ := timeout_tokens h₄
      obtain ⟨rfl, rfl⟩ := by simpa [pure_eq_ok_iff] using h
      have hts₄ : ts = seg ++ [t] ++ seg' ++ ([o, m] ++ [c]) ++ r₄.1 := taken_trans hts₃ hrest₃
      have hkinds : (Grammar.Key.mk x (some ⟨style, y, some n⟩)).kinds =
          x.kinds ++ [Grammar.styleKind style] ++ y.kinds ++ Grammar.timeoutKinds (some n) := by
        simp [Grammar.Key.kinds, Grammar.Hold.kinds]
      have hclose : (extent (seg ++ [t] ++ seg')).join c.span =
          extent (seg ++ [t] ++ seg' ++ ([o, m] ++ [c])) := by
        have hall := (hts₄ ▸ hordered).left
        rw [← List.append_assoc] at hall ⊢
        exact hall.join_extent (by simp) (List.cons_ne_nil _ _)
      refine ⟨⟨x, some ⟨style, y, some n⟩⟩, _, hts₄, ?_⟩
      rw [Key.outline, hjoin, hclose, hkinds]
      exact (hpair.append (.ofKinds htimeout)).node

theorem chord_extent {stop : Position} {t : Token} {ts : List Token} {c : Chord} {r : Rest ts}
    (hordered : Ordered (t :: ts)) (ht : t.kind = .symbol .chordOpen)
    (h : chord stop t.span ts = .ok (c, r)) :
    ∃ (x : Grammar.Key) (seg : List Token), t :: ts = seg ++ r.1 ∧
      Outlined seg (Grammar.Item.chord x).kinds [(Grammar.Item.chord x).shape] [c.outline] := by
  rw [chord] at h
  obtain ⟨⟨k, r₁⟩, h₁, h⟩ := bind_eq_ok_iff.mp h
  obtain ⟨⟨close, r₂⟩, h₂, h⟩ := bind_eq_ok_iff.mp h
  obtain ⟨x, seg, hts, hkey⟩ := key_extent (hordered.sublist (List.sublist_cons_self t ts)) h₁
  obtain ⟨c, hrest, -, hclose⟩ := expect_eq_ok_iff.mp h₂
  obtain ⟨hc, rfl⟩ := symbol?_eq_some_iff.mp hclose
  obtain ⟨rfl, rfl⟩ := by simpa [pure_eq_ok_iff] using h
  have hall : t :: ts = t :: seg ++ [c] ++ r₂.1 := congrArg (t :: ·) (taken_trans hts hrest)
  have hseg : Ordered (t :: seg ++ [c]) := (hall ▸ hordered).left
  refine ⟨x, t :: seg ++ [c], hall, ?_⟩
  rw [Chord.outline, hseg.join_ends]
  exact (((Outlined.token ht).append hkey).append (.token hc)).node

theorem rowItems_extent {stop : Position} (last : Option Span) (ts : List Token)
    {items : List RowItem} {semi : Span} {r : Rest ts} (hordered : Ordered ts)
    (h : rowItems stop last ts = .ok ((items, semi), r)) :
    ∃ (xs : List Grammar.Item) (seg : List Token) (c : Token), ts = seg ++ [c] ++ r.1 ∧
      c.kind = .symbol .semicolon ∧ semi = c.span ∧ (xs = [] → last ≠ none) ∧
      Outlined seg (xs.flatMap Grammar.Item.kinds) (xs.map Grammar.Item.shape)
        (items.map RowItem.outline) := by
  induction last, ts using rowItems.induct generalizing items semi with
  | case1 last =>
    rw [rowItems] at h
    cases h
  | case2 last t rest ihchord ihkey =>
    rw [rowItems] at h
    obtain ⟨t', hlook, h⟩ := bind_eq_ok_iff.mp h
    obtain ⟨-, rfl⟩ := look_eq_ok_iff.mp hlook
    split at h
    · -- The semicolon, which is refused in front of the first item.
      rename_i hk
      obtain ⟨semi', hend, h⟩ := bind_eq_ok_iff.mp h
      obtain ⟨⟨rfl, rfl⟩, rfl⟩ := by simpa [pure_eq_ok_iff] using h
      cases last with
      | none => cases hend
      | some span =>
        obtain rfl := Except.ok.inj hend
        exact ⟨[], [], t', rfl, hk, rfl, by simp, .nil⟩
    · cases h
    · -- A chord.
      rename_i hk
      obtain ⟨⟨c, r₁⟩, h₁, h⟩ := bind_eq_ok_iff.mp h
      obtain ⟨⟨⟨items', semi'⟩, r₂⟩, h₂, h⟩ := bind_eq_ok_iff.mp h
      obtain ⟨x, seg, hts, hchord⟩ := chord_extent hordered hk h₁
      obtain ⟨xs, seg', s, hrest, hs, rfl, -, hitems⟩ := ihchord c r₁ (hts ▸ hordered).right h₂
      obtain ⟨⟨rfl, rfl⟩, rfl⟩ := by simpa [pure_eq_ok_iff] using h
      refine ⟨.chord x :: xs, seg ++ seg', s, ?_, hs, rfl, by simp, hchord.append hitems⟩
      rw [List.append_assoc seg]
      exact taken_trans hts hrest
    · -- Any other item is read as a key, from its first token on.
      obtain ⟨⟨k, r₁⟩, h₁, h⟩ := bind_eq_ok_iff.mp h
      obtain ⟨⟨⟨items', semi'⟩, r₂⟩, h₂, h⟩ := bind_eq_ok_iff.mp h
      obtain ⟨x, seg, hts, hkey⟩ := key_extent hordered h₁
      obtain ⟨xs, seg', s, hrest, hs, rfl, -, hitems⟩ := ihkey k r₁ (hts ▸ hordered).right h₂
      obtain ⟨⟨rfl, rfl⟩, rfl⟩ := by simpa [pure_eq_ok_iff] using h
      refine ⟨.key x :: xs, seg ++ seg', s, ?_, hs, rfl, by simp, ?_⟩
      · rw [List.append_assoc seg]
        exact taken_trans hts hrest
      · exact hkey.append hitems

/-- The items of a row, which are nodes, and the semicolon behind them. The first item and the
semicolon give the place of the row. -/
theorem row_extent {α X : Type} {outline : α → Outline} {span : α → Span}
    (hspan : ∀ a, (outline a).span = span a) {derived : X → List Kind} {shape : X → Shape}
    (hshape : ∀ x, ∃ parts, shape x = .node parts ∧ 0 < Shape.sizes parts) {seg rest : List Token}
    {c : Token} {x : X} {xs : List X} {items : List α} (hordered : Ordered (seg ++ [c] ++ rest))
    (hc : c.kind = .symbol .semicolon)
    (h : Outlined seg ((x :: xs).flatMap derived) ((x :: xs).map shape) (items.map outline)) :
    Outlined (seg ++ [c]) (Grammar.Row.kinds derived ⟨x, xs⟩) [Grammar.Row.shape shape ⟨x, xs⟩]
      [.node (((items.head?.map span).getD {}).join c.span)
        (items.map outline ++ [.mark c.span])] := by
  obtain ⟨parts, hparts, hpos⟩ := hshape x
  have hsize := h.length_eq
  have houtlines := h.outlines_eq
  rw [List.map_cons, hparts] at hsize houtlines
  rw [Shape.sizes_node] at hsize
  rw [Shape.outlines] at houtlines
  cases items with
  | nil => cases houtlines
  | cons i items =>
    have hi : span i = extent (seg.take (Shape.sizes parts)) := by
      rw [← hspan, ← (List.cons.inj houtlines).1]
      rfl
    have hsplit := List.take_append_drop (Shape.sizes parts) seg
    have hfirst : seg.take (Shape.sizes parts) ≠ [] := by
      rw [← List.length_pos_iff, List.length_take]
      omega
    have hseg := hordered.left
    rw [← hsplit] at hseg
    have hjoin := hseg.join_extent hfirst (List.cons_ne_nil c [])
    rw [hsplit, ← hi] at hjoin
    show Outlined _ _ _ [.node ((span i).join (extent [c])) _]
    rw [hjoin]
    exact (h.append (.mark hc)).node

theorem layerRow_extent {stop : Position} (ts : List Token) (row : LayerRow) (r : Rest ts)
    (hordered : Ordered ts) (h : layerRow stop ts = .ok (row, r)) :
    ∃ (x : Grammar.Row Grammar.Item) (seg : List Token), ts = seg ++ r.1 ∧
      Outlined seg (x.kinds Grammar.Item.kinds) [x.shape Grammar.Item.shape] [row.outline] := by
  rw [layerRow] at h
  obtain ⟨⟨⟨items, semi⟩, r'⟩, h', h⟩ := bind_eq_ok_iff.mp h
  obtain ⟨xs, seg, c, hts, hc, rfl, hne, hitems⟩ := rowItems_extent none ts hordered h'
  obtain ⟨rfl, rfl⟩ := by simpa [pure_eq_ok_iff] using h
  cases xs with
  | nil => exact absurd rfl (hne rfl)
  | cons x xs =>
    refine ⟨⟨x, xs⟩, seg ++ [c], hts, row_extent ?_ ?_ (hts ▸ hordered) hc hitems⟩
    · rintro (k | c) <;> rfl
    · rintro (k | k)
      · exact ⟨_, rfl, k.tap.sizes_shape_pos _⟩
      · exact ⟨_, rfl, by simp⟩

/-! ## 3. Layouts -/

theorem layoutItems_extent {stop : Position} (last : Option Span) (ts : List Token)
    {items : List LayoutItem} {semi : Span} {r : Rest ts} (hordered : Ordered ts)
    (h : layoutItems stop last ts = .ok ((items, semi), r)) :
    ∃ (xs : List Grammar.Cell) (seg : List Token) (c : Token), ts = seg ++ [c] ++ r.1 ∧
      c.kind = .symbol .semicolon ∧ semi = c.span ∧ (xs = [] → last ≠ none) ∧
      Outlined seg (xs.flatMap Grammar.Cell.kinds) (xs.map Grammar.Cell.shape)
        (items.map LayoutItem.outline) := by
  induction last, ts using layoutItems.induct generalizing items semi with
  | case1 last =>
    rw [layoutItems] at h
    cases h
  | case2 last t rest ih ihremap =>
    have hbehind : Ordered rest := hordered.sublist (List.sublist_cons_self t rest)
    rw [layoutItems] at h
    obtain ⟨t', hlook, h⟩ := bind_eq_ok_iff.mp h
    obtain ⟨-, rfl⟩ := look_eq_ok_iff.mp hlook
    split at h
    · -- A count of keys.
      rename_i n hk
      obtain ⟨⟨⟨items', semi'⟩, r'⟩, h', h⟩ := bind_eq_ok_iff.mp h
      obtain ⟨xs, seg, c, hrest, hc, rfl, -, hitems⟩ := ih hbehind h'
      obtain ⟨⟨rfl, rfl⟩, rfl⟩ := by simpa [pure_eq_ok_iff] using h
      have hcell : Outlined [t'] (Grammar.Cell.keys n).kinds [(Grammar.Cell.keys n).shape]
          [(LayoutItem.mk (.keys n) t'.span).outline] := (Outlined.token hk).node
      exact ⟨.keys n :: xs, t' :: seg, c, congrArg (t' :: ·) hrest, hc, rfl, by simp,
        hcell.append hitems⟩
    · -- A count of spacers.
      rename_i n hk
      obtain ⟨⟨⟨items', semi'⟩, r'⟩, h', h⟩ := bind_eq_ok_iff.mp h
      obtain ⟨xs, seg, c, hrest, hc, rfl, -, hitems⟩ := ih hbehind h'
      obtain ⟨⟨rfl, rfl⟩, rfl⟩ := by simpa [pure_eq_ok_iff] using h
      have hcell : Outlined [t'] (Grammar.Cell.spaces n).kinds [(Grammar.Cell.spaces n).shape]
          [(LayoutItem.mk (.spaces n) t'.span).outline] := (Outlined.token hk).node
      exact ⟨.spaces n :: xs, t' :: seg, c, congrArg (t' :: ·) hrest, hc, rfl, by simp,
        hcell.append hitems⟩
    · -- A key in brackets: its place runs from the opening one to the closing one.
      rename_i hk
      obtain ⟨⟨⟨n, close⟩, r₁⟩, h₁, h⟩ := bind_eq_ok_iff.mp h
      obtain ⟨⟨⟨items', semi'⟩, r₂⟩, h₂, h⟩ := bind_eq_ok_iff.mp h
      obtain ⟨m, b, hrest₁, hm, hb, rfl⟩ :=
        bracketed_tokens (fun t a span hw => (integer?_eq_some_iff.mp hw).1) h₁
      have hts : t' :: rest = t' :: [m] ++ [b] ++ r₁.1 := congrArg (t' :: ·) hrest₁
      have hseg : Ordered (t' :: [m] ++ [b]) := (hts ▸ hordered).left
      obtain ⟨xs, seg, c, hrest₂, hc, rfl, -, hitems⟩ :=
        ihremap b.span r₁ (hts ▸ hordered).right h₂
      obtain ⟨⟨rfl, rfl⟩, rfl⟩ := by simpa [pure_eq_ok_iff] using h
      have hcell : Outlined (t' :: [m] ++ [b]) (Grammar.Cell.remap n).kinds
          [(Grammar.Cell.remap n).shape]
          [(LayoutItem.mk (.remap n) (t'.span.join b.span)).outline] := by
        rw [LayoutItem.outline, hseg.join_ends]
        exact (Outlined.ofKinds (by simp [hk, hm, hb, Grammar.Cell.kinds])).node
      refine ⟨.remap n :: xs, t' :: [m] ++ [b] ++ seg, c, ?_, hc, rfl, by simp,
        hcell.append hitems⟩
      rw [List.append_assoc (t' :: [m] ++ [b])]
      exact taken_trans hts hrest₂
    · -- The semicolon, which is refused in front of the first item.
      rename_i hk
      obtain ⟨semi', hend, h⟩ := bind_eq_ok_iff.mp h
      obtain ⟨⟨rfl, rfl⟩, rfl⟩ := by simpa [pure_eq_ok_iff] using h
      cases last with
      | none => cases hend
      | some span =>
        obtain rfl := Except.ok.inj hend
        exact ⟨[], [], t', rfl, hk, rfl, by simp, .nil⟩
    · cases h
    · cases h

theorem layoutRow_extent {stop : Position} (ts : List Token) (row : LayoutRow) (r : Rest ts)
    (hordered : Ordered ts) (h : layoutRow stop ts = .ok (row, r)) :
    ∃ (x : Grammar.Row Grammar.Cell) (seg : List Token), ts = seg ++ r.1 ∧
      Outlined seg (x.kinds Grammar.Cell.kinds) [x.shape Grammar.Cell.shape] [row.outline] := by
  rw [layoutRow] at h
  obtain ⟨⟨⟨items, semi⟩, r'⟩, h', h⟩ := bind_eq_ok_iff.mp h
  obtain ⟨xs, seg, c, hts, hc, rfl, hne, hitems⟩ := layoutItems_extent none ts hordered h'
  obtain ⟨rfl, rfl⟩ := by simpa [pure_eq_ok_iff] using h
  cases xs with
  | nil => exact absurd rfl (hne rfl)
  | cons x xs =>
    refine ⟨⟨x, xs⟩, seg ++ [c], hts, row_extent ?_ ?_ (hts ▸ hordered) hc hitems⟩
    · intro i
      rfl
    · intro x
      exact ⟨_, rfl, by cases x <;> simp [Grammar.Cell.kinds]⟩

/-! ## 4. Options and key declarations -/

theorem value_tokens {stop : Position} {ts : List Token} {contents : String} {span : Span}
    {r : Rest ts} (h : value stop ts = .ok ((contents, span), r)) :
    ∃ t v, ts = [t, v] ++ r.1 ∧ t.kind = .symbol .colon ∧ v.kind = .string contents ∧
      span = v.span := by
  rw [value] at h
  obtain ⟨⟨colon, r₁⟩, h₁, h⟩ := bind_eq_ok_iff.mp h
  obtain ⟨⟨⟨contents', span'⟩, r₂⟩, h₂, h⟩ := bind_eq_ok_iff.mp h
  obtain ⟨t, hts, -, ht⟩ := expect_eq_ok_iff.mp h₁
  obtain ⟨v, hrest, -, hv⟩ := expect_eq_ok_iff.mp h₂
  obtain ⟨⟨rfl, rfl⟩, rfl⟩ := by simpa [pure_eq_ok_iff] using h
  obtain ⟨hv, hspan⟩ := string?_eq_some_iff.mp hv
  exact ⟨t, v, hts.trans (congrArg (t :: ·) hrest), (symbol?_eq_some_iff.mp ht).1, hv, hspan⟩

theorem semicolon_tokens {previous : Span} {ts : List Token} {span : Span} {r : Rest ts}
    (h : semicolon previous ts = .ok (span, r)) :
    ∃ c, ts = [c] ++ r.1 ∧ c.kind = .symbol .semicolon ∧ span = c.span := by
  rw [semicolon] at h
  obtain ⟨found, hfound, h⟩ := bind_eq_ok_iff.mp h
  cases found with
  | none => cases h
  | some p =>
    obtain rfl := pure_eq_ok_iff.mp h
    obtain ⟨c, hts, -, hc⟩ := accept_eq_some_iff.mp hfound
    exact ⟨c, hts, symbol?_eq_some_iff.mp hc⟩

theorem optionLine_extent {stop : Position} (ts : List Token) (line : OptionLine) (r : Rest ts)
    (hordered : Ordered ts) (h : optionLine stop ts = .ok (line, r)) :
    ∃ (x : Grammar.OptionLine) (seg : List Token), ts = seg ++ r.1 ∧
      Outlined seg x.kinds [x.shape] [line.outline] := by
  rw [optionLine] at h
  obtain ⟨⟨⟨name, nameSpan⟩, r₁⟩, h₁, h⟩ := bind_eq_ok_iff.mp h
  obtain ⟨⟨⟨contents, valueSpan⟩, r₂⟩, h₂, h⟩ := bind_eq_ok_iff.mp h
  obtain ⟨⟨semi, r₃⟩, h₃, h⟩ := bind_eq_ok_iff.mp h
  obtain ⟨n, hts, -, hname⟩ := expect_eq_ok_iff.mp h₁
  obtain ⟨hn, rfl⟩ := identifier?_eq_some_iff.mp hname
  obtain ⟨t, v, hrest₁, ht, hv, rfl⟩ := value_tokens h₂
  obtain ⟨c, hrest₂, hc, rfl⟩ := semicolon_tokens h₃
  obtain ⟨rfl, rfl⟩ := by simpa [pure_eq_ok_iff] using h
  have hall : ts = n :: [t, v] ++ [c] ++ r₃.1 :=
    hts.trans (congrArg (n :: ·) (taken_trans hrest₁ hrest₂))
  have hseg : Ordered (n :: [t, v] ++ [c]) := (hall ▸ hordered).left
  refine ⟨⟨name, contents⟩, n :: [t, v] ++ [c], hall, ?_⟩
  rw [OptionLine.outline, hseg.join_ends]
  exact ((((Outlined.mark hn).append (.token ht)).append (.mark hv)).append (.token hc)).node

theorem keyOutput_extent {stop : Position} (ts : List Token) (output : KeyOutput) (r : Rest ts)
    (hordered : Ordered ts) (h : keyOutput stop ts = .ok (output, r)) :
    ∃ (x : Grammar.OutLine) (seg : List Token), ts = seg ++ r.1 ∧
      Outlined seg x.kinds [x.shape] [output.outline] := by
  rw [keyOutput] at h
  obtain ⟨⟨word, r₁⟩, h₁, h⟩ := bind_eq_ok_iff.mp h
  obtain ⟨⟨⟨backend, backendSpan⟩, r₂⟩, h₂, h⟩ := bind_eq_ok_iff.mp h
  obtain ⟨⟨⟨contents, valueSpan⟩, r₃⟩, h₃, h⟩ := bind_eq_ok_iff.mp h
  obtain ⟨⟨semi, r₄⟩, h₄, h⟩ := bind_eq_ok_iff.mp h
  obtain ⟨o, hts, -, hout⟩ := expect_eq_ok_iff.mp h₁
  obtain ⟨ho, rfl⟩ := out?_eq_some_iff.mp hout
  obtain ⟨b, hrest₁, -, hbackend⟩ := expect_eq_ok_iff.mp h₂
  obtain ⟨hb, rfl⟩ := identifier?_eq_some_iff.mp hbackend
  obtain ⟨t, v, hrest₂, ht, hv, rfl⟩ := value_tokens h₃
  obtain ⟨c, hrest₃, hc, rfl⟩ := semicolon_tokens h₄
  obtain ⟨rfl, rfl⟩ := by simpa [pure_eq_ok_iff] using h
  have hall : ts = o :: [b, t, v] ++ [c] ++ r₄.1 := hts.trans (congrArg (o :: ·)
    (hrest₁.trans (congrArg (b :: ·) (taken_trans hrest₂ hrest₃))))
  have hseg : Ordered (o :: [b, t, v] ++ [c]) := (hall ▸ hordered).left
  refine ⟨⟨backend, contents⟩, o :: [b, t, v] ++ [c], hall, ?_⟩
  rw [KeyOutput.outline, hseg.join_ends]
  exact (((((Outlined.token ho).append (.mark hb)).append (.token ht)).append (.token hv)).append
    (.token hc)).node

/-! ## 5. Blocks -/

/-- The parts of a block, each of which `part` reads, up to the closing brace. -/
theorem body_extent {α X : Type} {outline : α → Outline} {derived : X → List Kind}
    {shape : X → Shape} {stop : Position} {keyword : Span}
    {part : (ts : List Token) → Outcome α ts}
    (hpart : ∀ ts a r, Ordered ts → part ts = .ok (a, r) →
      ∃ x seg, ts = seg ++ r.1 ∧ Outlined seg (derived x) [shape x] [outline a])
    (ts : List Token) {as : List α} {close : Span} {r : Rest ts} (hordered : Ordered ts)
    (h : body stop keyword part ts = .ok ((as, close), r)) :
    ∃ (xs : List X) (seg : List Token) (c : Token), ts = seg ++ [c] ++ r.1 ∧
      c.kind = .symbol .closeBrace ∧ close = c.span ∧
      Outlined seg (xs.flatMap derived) (xs.map shape) (as.map outline) := by
  induction ts using body.induct generalizing as close with
  | case1 ts ih =>
    rw [body] at h
    obtain ⟨found, hfound, h⟩ := bind_eq_ok_iff.mp h
    cases found with
    | some p =>
      obtain ⟨c, hts, -, hclose⟩ := accept_eq_some_iff.mp hfound
      obtain ⟨⟨rfl, rfl⟩, rfl⟩ := by simpa [pure_eq_ok_iff] using h
      obtain ⟨hc, hspan⟩ := symbol?_eq_some_iff.mp hclose
      exact ⟨[], [], c, hts, hc, hspan, .nil⟩
    | none =>
      obtain ⟨t, -, h⟩ := bind_eq_ok_iff.mp h
      dsimp only at h
      split at h
      · cases h
      obtain ⟨⟨first, r₁⟩, h₁, h⟩ := bind_eq_ok_iff.mp h
      obtain ⟨⟨⟨others, close'⟩, r₂⟩, h₂, h⟩ := bind_eq_ok_iff.mp h
      obtain ⟨x, seg, hts, hfirst⟩ := hpart ts first r₁ hordered h₁
      obtain ⟨xs, seg', c, hrest, hc, hspan, hothers⟩ := ih r₁ (hts ▸ hordered).right h₂
      obtain ⟨⟨rfl, rfl⟩, rfl⟩ := by simpa [pure_eq_ok_iff] using h
      refine ⟨x :: xs, seg ++ seg', c, ?_, hc, hspan, hfirst.append hothers⟩
      rw [List.append_assoc seg]
      exact taken_trans hts hrest

theorem openBlock_tokens {stop : Position} {keyword : Span} {ts : List Token} {span : Span}
    {r : Rest ts} (h : openBlock stop keyword ts = .ok (span, r)) :
    ∃ o, ts = [o] ++ r.1 ∧ o.kind = .symbol .openBrace := by
  obtain ⟨o, hts, -, ho⟩ := expect_eq_ok_iff.mp h
  exact ⟨o, hts, (symbol?_eq_some_iff.mp ho).1⟩

/-- A block: its keyword `k`, what is named behind it, and the parts between the braces `o` and
`c`. -/
theorem braced_extent {X : Type} {derived : X → List Kind} {shape : X → Shape} {xs : List X}
    {k o c : Token} {name seg : List Token} {word : Kind} {ks : List Kind} {ss : List Shape}
    {os os' : List Outline} (hk : k.kind = word) (ho : o.kind = .symbol .openBrace)
    (hc : c.kind = .symbol .closeBrace) (hordered : Ordered (k :: (name ++ [o] ++ seg) ++ [c]))
    (hname : Outlined name ks ss os)
    (hparts : Outlined seg (xs.flatMap derived) (xs.map shape) os') :
    Outlined (k :: (name ++ [o] ++ seg) ++ [c]) (word :: ks ++ Grammar.braced derived xs)
      [Grammar.bracedShape ss (xs.map shape)] [.node (k.span.join c.span) (os ++ os')] := by
  have hinner := ((hname.append (.token ho)).append hparts).append (.token hc)
  have hall := ((Outlined.token hk).append hinner).node
  rw [hordered.join_ends]
  simpa [Grammar.braced, Grammar.bracedShape] using hall

theorem layoutBlock_extent {stop : Position} {k : Token} {ts : List Token} {b : LayoutBlock}
    {close : Span} {r : Rest ts} (hordered : Ordered (k :: ts))
    (hk : k.kind = .identifier "layout") (h : layoutBlock stop k.span ts = .ok ((b, close), r)) :
    ∃ (x : Grammar.Block) (seg : List Token), k :: ts = seg ++ r.1 ∧
      Outlined seg x.kinds [x.shape] [b.outline] := by
  rw [layoutBlock] at h
  obtain ⟨⟨span, r₁⟩, h₁, h⟩ := bind_eq_ok_iff.mp h
  obtain ⟨⟨⟨rows, close'⟩, r₂⟩, h₂, h⟩ := bind_eq_ok_iff.mp h
  obtain ⟨o, hts, ho⟩ := openBlock_tokens h₁
  have hbody : Ordered r₁.1 := (hts ▸ hordered.sublist (List.sublist_cons_self k ts)).right
  obtain ⟨xs, seg, c, hrest, hc, rfl, hrows⟩ := body_extent layoutRow_extent r₁.1 hbody h₂
  obtain ⟨⟨rfl, rfl⟩, rfl⟩ := by simpa [pure_eq_ok_iff] using h
  have hall : k :: ts = k :: ([] ++ [o] ++ seg) ++ [c] ++ r₂.1 := by
    have hparts := congrArg (k :: ·) (taken_trans hts hrest)
    simpa using hparts
  exact ⟨.layout xs, _, hall, braced_extent hk ho hc (hall ▸ hordered).left .nil hrows⟩

/-- A block with a name behind its keyword. -/
theorem named_extent {α X : Type} {outline : α → Outline} {derived : X → List Kind}
    {shape : X → Shape} {stop : Position} {fault : SyntaxFault}
    {part : (ts : List Token) → Outcome α ts}
    (hpart : ∀ ts a r, Ordered ts → part ts = .ok (a, r) →
      ∃ x seg, ts = seg ++ r.1 ∧ Outlined seg (derived x) [shape x] [outline a])
    {k : Token} {word : Kind} {ts : List Token} {name : String} {nameSpan span close : Span}
    {r₁ : Rest ts} {r₂ : Rest r₁.1} {r₃ : Rest r₂.1} {as : List α} (hordered : Ordered (k :: ts))
    (hk : k.kind = word)
    (h₁ : expect stop identifier? fault ts = .ok ((name, nameSpan), r₁))
    (h₂ : openBlock stop k.span r₁.1 = .ok (span, r₂))
    (h₃ : body stop k.span part r₂.1 = .ok ((as, close), r₃)) :
    ∃ xs seg, k :: ts = seg ++ r₃.1 ∧
      Outlined seg (word :: .identifier name :: Grammar.braced derived xs)
        [Grammar.bracedShape [.mark] (xs.map shape)]
        [.node (k.span.join close) (.mark nameSpan :: as.map outline)] := by
  obtain ⟨n, hts, -, hname⟩ := expect_eq_ok_iff.mp h₁
  obtain ⟨hn, rfl⟩ := identifier?_eq_some_iff.mp hname
  obtain ⟨o, hrest₁, ho⟩ := openBlock_tokens h₂
  have hhead : k :: ts = k :: [n, o] ++ r₂.1 :=
    congrArg (k :: ·) (hts.trans (congrArg (n :: ·) hrest₁))
  obtain ⟨xs, seg, c, hrest₂, hc, rfl, hparts⟩ :=
    body_extent hpart r₂.1 (hhead ▸ hordered).right h₃
  have hall : k :: ts = k :: ([n] ++ [o] ++ seg) ++ [c] ++ r₃.1 := by
    simpa using taken_trans hhead hrest₂
  exact ⟨xs, _, hall, braced_extent hk ho hc (hall ▸ hordered).left (.mark hn) hparts⟩

theorem optionsBlock_extent {stop : Position} {k : Token} {ts : List Token} {b : OptionsBlock}
    {close : Span} {r : Rest ts} (hordered : Ordered (k :: ts))
    (hk : k.kind = .identifier "options") (h : optionsBlock stop k.span ts = .ok ((b, close), r)) :
    ∃ (x : Grammar.Block) (seg : List Token), k :: ts = seg ++ r.1 ∧
      Outlined seg x.kinds [x.shape] [b.outline] := by
  rw [optionsBlock] at h
  obtain ⟨⟨⟨name, nameSpan⟩, r₁⟩, h₁, h⟩ := bind_eq_ok_iff.mp h
  obtain ⟨⟨span, r₂⟩, h₂, h⟩ := bind_eq_ok_iff.mp h
  obtain ⟨⟨⟨lines, close'⟩, r₃⟩, h₃, h⟩ := bind_eq_ok_iff.mp h
  obtain ⟨xs, seg, hts, hblock⟩ := named_extent optionLine_extent hordered hk h₁ h₂ h₃
  obtain ⟨⟨rfl, rfl⟩, rfl⟩ := by simpa [pure_eq_ok_iff] using h
  exact ⟨.options name xs, seg, hts, hblock⟩

theorem keyDeclaration_extent {stop : Position} {k : Token} {ts : List Token} {d : KeyDeclaration}
    {close : Span} {r : Rest ts} (hordered : Ordered (k :: ts))
    (hk : k.kind = .identifier "key") (h : keyDeclaration stop k.span ts = .ok ((d, close), r)) :
    ∃ (x : Grammar.Block) (seg : List Token), k :: ts = seg ++ r.1 ∧
      Outlined seg x.kinds [x.shape] [d.outline] := by
  rw [keyDeclaration] at h
  obtain ⟨⟨⟨name, nameSpan⟩, r₁⟩, h₁, h⟩ := bind_eq_ok_iff.mp h
  obtain ⟨⟨span, r₂⟩, h₂, h⟩ := bind_eq_ok_iff.mp h
  obtain ⟨⟨⟨outputs, close'⟩, r₃⟩, h₃, h⟩ := bind_eq_ok_iff.mp h
  obtain ⟨xs, seg, hts, hblock⟩ := named_extent keyOutput_extent hordered hk h₁ h₂ h₃
  obtain ⟨⟨rfl, rfl⟩, rfl⟩ := by simpa [pure_eq_ok_iff] using h
  exact ⟨.key name xs, seg, hts, hblock⟩

theorem layerBlock_extent {stop : Position} {k : Token} {ts : List Token} {b : LayerBlock}
    {close : Span} {r : Rest ts} (hordered : Ordered (k :: ts))
    (hk : k.kind = .identifier "layer") (h : layerBlock stop k.span ts = .ok ((b, close), r)) :
    ∃ (x : Grammar.Block) (seg : List Token), k :: ts = seg ++ r.1 ∧
      Outlined seg x.kinds [x.shape] [b.outline] := by
  rw [layerBlock] at h
  obtain ⟨⟨⟨name, nameSpan⟩, r₁⟩, h₁, h⟩ := bind_eq_ok_iff.mp h
  obtain ⟨⟨span, r₂⟩, h₂, h⟩ := bind_eq_ok_iff.mp h
  obtain ⟨⟨⟨rows, close'⟩, r₃⟩, h₃, h⟩ := bind_eq_ok_iff.mp h
  obtain ⟨xs, seg, hts, hblock⟩ := named_extent layerRow_extent hordered hk h₁ h₂ h₃
  obtain ⟨⟨rfl, rfl⟩, rfl⟩ := by simpa [pure_eq_ok_iff] using h
  exact ⟨.layer name xs, seg, hts, hblock⟩

theorem block_extent {stop : Position} {ts : List Token} {b : Block} {close : Span} {r : Rest ts}
    (hordered : Ordered ts) (h : block stop ts = .ok ((b, close), r)) :
    ∃ (x : Grammar.Block) (seg : List Token), ts = seg ++ r.1 ∧
      Outlined seg x.kinds [x.shape] [b.outline] := by
  cases ts with
  | nil => cases h
  | cons t rest =>
    rw [block] at h
    obtain ⟨t', hlook, h⟩ := bind_eq_ok_iff.mp h
    obtain ⟨-, rfl⟩ := look_eq_ok_iff.mp hlook
    split at h
    · rename_i hk
      obtain ⟨⟨⟨b', close'⟩, r'⟩, h', h⟩ := bind_eq_ok_iff.mp h
      obtain ⟨⟨rfl, rfl⟩, rfl⟩ := by simpa [pure_eq_ok_iff] using h
      exact layoutBlock_extent hordered hk h'
    · rename_i hk
      obtain ⟨⟨⟨b', close'⟩, r'⟩, h', h⟩ := bind_eq_ok_iff.mp h
      obtain ⟨⟨rfl, rfl⟩, rfl⟩ := by simpa [pure_eq_ok_iff] using h
      exact optionsBlock_extent hordered hk h'
    · rename_i hk
      obtain ⟨⟨⟨d, close'⟩, r'⟩, h', h⟩ := bind_eq_ok_iff.mp h
      obtain ⟨⟨rfl, rfl⟩, rfl⟩ := by simpa [pure_eq_ok_iff] using h
      exact keyDeclaration_extent hordered hk h'
    · rename_i hk
      obtain ⟨⟨⟨b', close'⟩, r'⟩, h', h⟩ := bind_eq_ok_iff.mp h
      obtain ⟨⟨rfl, rfl⟩, rfl⟩ := by simpa [pure_eq_ok_iff] using h
      exact layerBlock_extent hordered hk h'
    · cases h

/-- All tokens of a file belong to its blocks. -/
theorem blocks_extent {stop : Position} (first : Option Span) (ts : List Token)
    {found : List (Block × Span)} (hordered : Ordered ts)
    (h : blocks stop first ts = .ok found) :
    ∃ f : Grammar.File, Outlined ts f.kinds (f.map Grammar.Block.shape)
      (found.map (·.1.outline)) := by
  induction first, ts using blocks.induct generalizing found with
  | case1 first =>
    rw [blocks] at h
    obtain rfl := Except.ok.inj h
    exact ⟨[], .nil⟩
  | case2 first t rest ih =>
    rw [blocks] at h
    obtain ⟨⟨⟨b, close⟩, r⟩, h₁, h⟩ := bind_eq_ok_iff.mp h
    obtain ⟨first', h₂, h⟩ := bind_eq_ok_iff.mp h
    obtain ⟨others, h₃, h⟩ := bind_eq_ok_iff.mp h
    obtain ⟨x, seg, hts, hblock⟩ := block_extent hordered h₁
    obtain ⟨f, hothers⟩ := ih r first' (hts ▸ hordered).right h₃
    obtain rfl := pure_eq_ok_iff.mp h
    refine ⟨x :: f, ?_⟩
    rw [hts]
    exact hblock.append hothers

/-! ## 6. Whole descriptions -/

def Block.layout? : Block → Option LayoutBlock
  | .layout b => some b
  | _ => none

def Block.options? : Block → Option OptionsBlock
  | .options b => some b
  | _ => none

def Block.key? : Block → Option KeyDeclaration
  | .key d => some d
  | _ => none

def Block.layer? : Block → Option LayerBlock
  | .layer b => some b
  | _ => none

/-- The blocks of a description in the order they were written. -/
structure Holds (d : Description) (bs : List Block) : Prop where
  layout : bs.filterMap Block.layout? = [d.layout]
  options : bs.filterMap Block.options? = d.options
  keys : bs.filterMap Block.key? = d.keys
  layers : bs.filterMap Block.layer? = d.layers

theorem filterMap_layout? {layout : LayoutBlock} {found : List (Block × Span)}
    (hlayout : layoutOf? found = some layout) {f : Grammar.File}
    {rows : List (Grammar.Row Grammar.Cell)} (hrows : f.layouts = [rows])
    (hfound : found.map (·.1.unlocated) = f.map Block.ofDerivation) :
    found.filterMap (·.1.layout?) = [layout] := by
  have hpick : (found.filterMap (·.1.layout?)).map LayoutBlock.unlocated =
      f.filterMap fun x => x.layout?.map Grammar.layoutTree :=
    filterMap_unlocated hfound (fun b => b.layout?)
      (by rintro ⟨_ | _ | _ | _, _⟩ <;> rfl) (by rintro (_ | _ | _ | _) <;> rfl)
  -- One layout is derived, so one was found, and it is the first one.
  have hone : (found.filterMap (·.1.layout?)).length = 1 := by
    have hlength := congrArg List.length hpick
    rw [← List.map_filterMap, List.length_map, List.length_map] at hlength
    rw [hlength]
    exact congrArg List.length hrows
  obtain ⟨b, hb⟩ := List.length_eq_one_iff.mp hone
  have hhead : layoutOf? found = (found.filterMap (·.1.layout?)).head? := by
    rw [List.head?_filterMap, layoutOf?]
    congr 1
    funext x
    obtain ⟨_ | _ | _ | _, _⟩ := x <;> rfl
  rw [hb, hlayout] at hhead
  rw [hb, Option.some.inj hhead]

theorem holds_assemble {layout : LayoutBlock} {found : List (Block × Span)}
    (h : found.filterMap (·.1.layout?) = [layout]) :
    Holds (assemble layout found) (found.map (·.1)) := by
  refine ⟨?_, ?_, ?_, ?_⟩ <;> rw [List.filterMap_map]
  · exact h
  all_goals
    unfold assemble
    congr 1
    funext x
    obtain ⟨_ | _ | _ | _, _⟩ := x <;> rfl

theorem exists_blocks {source : Text} {d : Description}
    (h : Description.parse source = .ok d) :
    ∃ (f : Grammar.File) (found : List (Block × Span)),
      blocks (TokenStream.ofText source).stop none (TokenStream.ofText source).tokens = .ok found ∧
      Holds d (found.map (·.1)) ∧ d.span = (found.map (·.2)).foldl Span.join {} ∧
      kinds (TokenStream.ofText source).tokens = f.kinds ∧
      (found.map (·.1)).map Block.unlocated = f.map Block.ofDerivation ∧
      Ordered (TokenStream.ofText source).tokens := by
  obtain ⟨f, rows, hkinds, hrows, -⟩ := description_sound h
  have hvalid : ∀ t ∈ (TokenStream.ofText source).tokens, t.kind ≠ .invalid := by
    intro t ht
    have hmem := List.mem_map_of_mem (f := (·.kind)) ht
    exact (file_readable f t.kind (hkinds ▸ hmem)).1
  have hordered := TokenStream.ordered_tokens hvalid
  rw [Description.parse, description] at h
  obtain ⟨found, h₁, h⟩ := bind_eq_ok_iff.mp h
  obtain ⟨f', hkinds', hfound, -⟩ := blocks_sound none _ h₁
  obtain rfl : f' = f := Grammar.File.kinds_inj (hkinds'.symm.trans hkinds)
  split at h
  · rename_i layout hlayout
    obtain rfl := pure_eq_ok_iff.mp h
    refine ⟨f', found, h₁, holds_assemble (filterMap_layout? hlayout hrows hfound), rfl, hkinds,
      ?_, hordered⟩
    rw [List.map_map]
    exact hfound
  · cases h

/-- The blocks of a description over all tokens of its source. -/
theorem exists_outlined {source : Text} {d : Description}
    (h : Description.parse source = .ok d) :
    ∃ (f : Grammar.File) (bs : List Block), Holds d bs ∧
      bs.map Block.unlocated = f.map Block.ofDerivation ∧
      Ordered (TokenStream.ofText source).tokens ∧
      Outlined (TokenStream.ofText source).tokens f.kinds (f.map Grammar.Block.shape)
        (bs.map Block.outline) := by
  obtain ⟨f, found, hblocks, hholds, -, hkinds, hunlocated, hordered⟩ := exists_blocks h
  -- Both derivations have the same tokens.
  obtain ⟨f', houtlined⟩ := blocks_extent none _ hordered hblocks
  obtain rfl : f' = f := Grammar.File.kinds_inj (houtlined.kinds_eq.symm.trans hkinds)
  refine ⟨f', found.map (·.1), hholds, hunlocated, hordered, ?_⟩
  rw [List.map_map]
  exact houtlined

end Parser

/-- The place of every node of a description is the extent of the tokens that the grammar derives
from it. Nodes lie within the nodes around them, and nodes side by side stand one behind the other:
the parts of a node, and the blocks of the file. -/
theorem Description.parse_extents {source : Text} {d : Description}
    (h : Description.parse source = .ok d) :
    ∃ (f : Grammar.File) (bs : List Parser.Block), Parser.Holds d bs ∧
      bs.map Parser.Block.unlocated = f.map Parser.Block.ofDerivation ∧
      Parser.Outlined (TokenStream.ofText source).tokens f.kinds (f.map Grammar.Block.shape)
        (bs.map Parser.Block.outline) ∧
      (∀ b ∈ bs, b.outline.Nested) ∧
      bs.Pairwise fun b b' => b.outline.span.Precedes b'.outline.span := by
  obtain ⟨f, bs, hholds, hunlocated, hordered, houtlined⟩ := Parser.exists_outlined h
  have hsolid := Shape.solid_map Grammar.Block.solid_shape f
  obtain ⟨hnested, hapart⟩ :=
    Shape.nested_outlines _ _ hsolid houtlined.length_eq hordered
  rw [houtlined.outlines_eq] at hnested hapart
  rw [List.pairwise_map] at hapart
  refine ⟨f, bs, hholds, hunlocated, houtlined, ?_, hapart⟩
  intro b hb
  exact hnested _ (List.mem_map_of_mem hb)

/-- A layer before the layout, with a chord whose key is held, over several lines. -/
def heldChord : Text :=
  Text.ofString ("layer l \x7b a >'1'@~\n[l] [200]\r\n< \"2\"; \x7d layout \x7b 1s [0]\n1k; \x7d")

theorem Description.parse_extents_heldChord : ∃ d, Description.parse heldChord = .ok d ∧
    ∃ (f : Grammar.File) (bs : List Parser.Block), Parser.Holds d bs ∧
      bs.map Parser.Block.unlocated = f.map Parser.Block.ofDerivation ∧
      Parser.Outlined (TokenStream.ofText heldChord).tokens f.kinds (f.map Grammar.Block.shape)
        (bs.map Parser.Block.outline) ∧
      (∀ b ∈ bs, b.outline.Nested) ∧
      bs.Pairwise fun b b' => b.outline.span.Precedes b'.outline.span := by
  have hrun : (Description.parse heldChord).toOption.isSome = true := by decide +kernel
  obtain ⟨d, hd⟩ := Option.isSome_iff_exists.mp hrun
  have hparse := Outcome.toOption_eq_some_iff.mp hd
  exact ⟨d, hparse, parse_extents hparse⟩

end Keyplan
