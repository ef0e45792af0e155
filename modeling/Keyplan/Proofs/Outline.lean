import Keyplan.Proofs.Token.Places

/-!
# Outlines — the places of nodes within nodes

A shape says how many tokens a node has, and which of them belong to the nodes inside it. Laid over
tokens it gives an outline: every node with its extent, which runs from the start of its first token
to the stop of its last one. Over tokens that stand one behind the other, nodes lie within the node
around them, and nodes side by side stand one behind the other as well.
-/

namespace Keyplan

/-! ## 1. Places in order -/

namespace Span

/-- A place with something in it. -/
def Proper (s : Span) : Prop :=
  s.start.before s.stop

/-- `s` starts no earlier and stops no later than `t`. -/
def Within (s t : Span) : Prop :=
  ¬ s.start.before t.start ∧ ¬ t.stop.before s.stop

/-- `s` stops no later than `t` starts. -/
def Precedes (s t : Span) : Prop :=
  ¬ t.start.before s.stop

theorem isZero_of_row {s : Span} (h : 0 < s.start.row) : s.isZero = false := by
  have hrow : s.start.row ≠ 0 := by omega
  simp [isZero, Position.isZero, hrow]

theorem join_of_precedes {s t : Span} (hs : 0 < s.start.row) (ht : 0 < t.start.row)
    (hs' : s.Proper) (ht' : t.Proper) (h : s.Precedes t) : s.join t = ⟨s.start, t.stop⟩ := by
  have hstart : ¬ t.start.before s.start := by
    simp only [Precedes, Proper, Position.before_iff] at h hs' ⊢
    omega
  have hstop : s.stop.before t.stop := by
    simp only [Precedes, Proper, Position.before_iff] at h ht' ⊢
    omega
  rw [join_of_isZero_eq_false (isZero_of_row hs) (isZero_of_row ht), if_neg hstart, if_pos hstop]

end Span

namespace Token

/-- Tokens with something in them, each behind the one before it. -/
structure Ordered (ts : List Token) : Prop where
  proper : ∀ t ∈ ts, t.span.Proper
  placed : ∀ t ∈ ts, 0 < t.span.start.row
  apart : ts.Pairwise fun t u => t.span.Precedes u.span

/-- The place from the start of the first token to the stop of the last one. -/
def extent (ts : List Token) : Span where
  start := (ts.head?.map (·.span.start)).getD {}
  stop := (ts.getLast?.map (·.span.stop)).getD {}

@[simp] theorem extent_singleton (t : Token) : extent [t] = t.span := rfl

theorem start_extent_append {ts : List Token} (h : ts ≠ []) (us : List Token) :
    (extent (ts ++ us)).start = (extent ts).start := by
  cases ts with
  | nil => exact absurd rfl h
  | cons t ts => rfl

theorem stop_extent_append (ts : List Token) {us : List Token} (h : us ≠ []) :
    (extent (ts ++ us)).stop = (extent us).stop := by
  simp only [extent, List.getLast?_append, List.getLast?_eq_some_getLast h, Option.some_or]

namespace Ordered

variable {ts us vs : List Token}

theorem sublist (h : Ordered ts) (hsub : us.Sublist ts) : Ordered us :=
  ⟨fun t ht => h.proper t (hsub.subset ht), fun t ht => h.placed t (hsub.subset ht),
    h.apart.sublist hsub⟩

theorem left (h : Ordered (ts ++ us)) : Ordered ts :=
  h.sublist (List.sublist_append_left ts us)

theorem right (h : Ordered (ts ++ us)) : Ordered us :=
  h.sublist (List.sublist_append_right ts us)

/-- What is left when the middle is taken out. -/
theorem ends (h : Ordered (ts ++ us ++ vs)) : Ordered (ts ++ vs) :=
  h.sublist ((List.sublist_append_left ts us).append_right vs)

theorem row_extent_pos (h : Ordered ts) (hts : ts ≠ []) : 0 < (extent ts).start.row := by
  cases ts with
  | nil => exact absurd rfl hts
  | cons t ts => exact h.placed t List.mem_cons_self

theorem extent_precedes (h : Ordered (ts ++ us)) (hts : ts ≠ []) (hus : us ≠ []) :
    (extent ts).Precedes (extent us) := by
  obtain ⟨u, us, rfl⟩ := List.exists_cons_of_ne_nil hus
  have hlast := (List.pairwise_append.mp h.apart).2.2 _ (List.getLast_mem hts) u List.mem_cons_self
  simp only [Span.Precedes, extent, List.getLast?_eq_some_getLast hts]
  exact hlast

theorem extent_proper (h : Ordered ts) (hts : ts ≠ []) : (extent ts).Proper := by
  induction ts with
  | nil => exact absurd rfl hts
  | cons t ts ih =>
    by_cases hrest : ts = []
    · subst hrest
      exact h.proper t List.mem_cons_self
    · have hsplit : Ordered ([t] ++ ts) := h
      have hfirst := h.proper t List.mem_cons_self
      have hbehind := ih hsplit.right hrest
      have hapart := hsplit.extent_precedes (by simp) hrest
      have hstart : (extent (t :: ts)).start = t.span.start := rfl
      have hstop : (extent (t :: ts)).stop = (extent ts).stop := stop_extent_append [t] hrest
      rw [Span.Proper, hstart, hstop]
      simp only [Span.Proper, Span.Precedes, Position.before_iff, extent_singleton] at *
      omega

/-- The place from one group of tokens to a later one is the extent of both and of what is
between them. -/
theorem join_extent (h : Ordered (ts ++ us ++ vs)) (hts : ts ≠ []) (hvs : vs ≠ []) :
    (extent ts).join (extent vs) = extent (ts ++ us ++ vs) := by
  rw [Span.join_of_precedes (h.ends.left.row_extent_pos hts) (h.ends.right.row_extent_pos hvs)
    (h.ends.left.extent_proper hts) (h.ends.right.extent_proper hvs)
    (h.ends.extent_precedes hts hvs)]
  have hstart := start_extent_append hts (us ++ vs)
  have hstop := stop_extent_append (ts ++ us) hvs
  rw [← List.append_assoc] at hstart
  rw [← hstart, ← hstop]

theorem join_ends {s t : Token} (h : Ordered (s :: ts ++ [t])) :
    s.span.join t.span = extent (s :: ts ++ [t]) := by
  have hends : Ordered ([s] ++ ts ++ [t]) := h
  exact hends.join_extent (List.cons_ne_nil _ _) (List.cons_ne_nil _ _)

theorem extent_within (h : Ordered (ts ++ us ++ vs)) (hus : us ≠ []) :
    (extent us).Within (extent (ts ++ us ++ vs)) := by
  have hproper := h.left.right.extent_proper hus
  constructor
  · by_cases hts : ts = []
    · subst hts
      rw [List.nil_append, start_extent_append hus]
      simp [Position.before]
    · have hfront := h.left.left.extent_proper hts
      have hapart := h.left.extent_precedes hts hus
      rw [List.append_assoc, start_extent_append hts]
      simp only [Span.Proper, Span.Precedes, Position.before_iff] at *
      omega
  · by_cases hvs : vs = []
    · subst hvs
      rw [List.append_nil, stop_extent_append _ hus]
      simp [Position.before]
    · have hback := h.right.extent_proper hvs
      have hus' : Ordered (us ++ vs) := by
        rw [List.append_assoc] at h
        exact h.right
      have hapart := hus'.extent_precedes hus hvs
      rw [stop_extent_append _ hvs]
      simp only [Span.Proper, Span.Precedes, Position.before_iff] at *
      omega

end Ordered

end Token

/-! ## 2. Shapes and outlines -/

open Token (Ordered extent)

/-- How tokens belong together: a token of its own, or a node with what it is made of. -/
inductive Shape where
  | token
  | node (parts : List Shape)

/-- A node with its place and the nodes inside it. -/
inductive Outline where
  | node (span : Span) (parts : List Outline)

namespace Outline

def span : Outline → Span
  | node span _ => span

def mark (span : Span) : Outline :=
  node span []

/-- Every node has something in it and lies within the node around it, and the nodes inside a node
stand one behind the other. -/
inductive Nested : Outline → Prop
  | node {span : Span} {parts : List Outline} (proper : span.Proper)
    (within : ∀ o ∈ parts, o.span.Within span)
    (apart : parts.Pairwise fun o o' => o.span.Precedes o'.span)
    (nested : ∀ o ∈ parts, o.Nested) : Nested (node span parts)

end Outline

namespace Shape

/-- A token that is a node by itself. -/
def mark : Shape :=
  node [token]

/-- How many tokens parts have, all together. -/
def sizes : List Shape → Nat
  | [] => 0
  | token :: rest => sizes rest + 1
  | node parts :: rest => sizes parts + sizes rest

/-- No node is without tokens. -/
def Solid : List Shape → Prop
  | [] => True
  | token :: rest => Solid rest
  | node parts :: rest => 0 < sizes parts ∧ Solid parts ∧ Solid rest

/-- The outlines of the nodes among parts that stand one behind the other on tokens. -/
def outlines : List Shape → List Token → List Outline
  | [], _ => []
  | token :: rest, ts => outlines rest ts.tail
  | node parts :: rest, ts =>
    .node (extent (ts.take (sizes parts))) (outlines parts (ts.take (sizes parts))) ::
      outlines rest (ts.drop (sizes parts))

@[simp] theorem sizes_nil : sizes [] = 0 := by rw [sizes]

@[simp] theorem sizes_token (rest : List Shape) : sizes (token :: rest) = sizes rest + 1 := by
  rw [sizes]

@[simp] theorem sizes_node (parts rest : List Shape) :
    sizes (node parts :: rest) = sizes parts + sizes rest := by
  rw [sizes]

@[simp] theorem sizes_append (ss ss' : List Shape) : sizes (ss ++ ss') = sizes ss + sizes ss' := by
  induction ss with
  | nil => simp
  | cons s ss ih => cases s <;> simp [ih] <;> omega

@[simp] theorem solid_nil : Solid [] := by simp [Solid]

@[simp] theorem solid_token {rest : List Shape} : Solid (token :: rest) ↔ Solid rest := by
  rw [Solid]

@[simp] theorem solid_node {parts rest : List Shape} :
    Solid (node parts :: rest) ↔ 0 < sizes parts ∧ Solid parts ∧ Solid rest := by
  rw [Solid]

@[simp] theorem solid_append {ss ss' : List Shape} : Solid (ss ++ ss') ↔ Solid ss ∧ Solid ss' := by
  induction ss with
  | nil => simp
  | cons s ss ih => cases s <;> simp [ih, and_assoc]

theorem solid_map {X : Type} {shape : X → Shape} (h : ∀ x, Solid [shape x]) (xs : List X) :
    Solid (xs.map shape) := by
  induction xs with
  | nil => simp
  | cons x xs ih =>
    rw [List.map_cons, ← List.singleton_append, solid_append]
    exact ⟨h x, ih⟩

@[simp] theorem outlines_nil (ts : List Token) : outlines [] ts = [] := by rw [outlines]

@[simp] theorem outlines_token (rest : List Shape) (t : Token) (ts : List Token) :
    outlines (token :: rest) (t :: ts) = outlines rest ts := by
  rw [outlines, List.tail_cons]

theorem outlines_node {parts : List Shape} {ts : List Token} (h : ts.length = sizes parts) :
    outlines [node parts] ts = [.node (extent ts) (outlines parts ts)] := by
  rw [outlines, ← h, List.take_length, outlines_nil]

theorem outlines_append {ss ss' : List Shape} {ts ts' : List Token} (h : ts.length = sizes ss) :
    outlines (ss ++ ss') (ts ++ ts') = outlines ss ts ++ outlines ss' ts' := by
  induction ss generalizing ts with
  | nil =>
    rw [sizes_nil] at h
    simp [List.eq_nil_of_length_eq_zero h]
  | cons s ss ih =>
    cases s with
    | token =>
      cases ts with
      | nil => simp at h
      | cons t ts =>
        rw [List.cons_append, List.cons_append, outlines_token, outlines_token]
        exact ih (by simpa using h)
    | node parts =>
      have hle : sizes parts ≤ ts.length := by
        rw [h, sizes_node]
        exact Nat.le_add_right _ _
      have hrest : (ts.drop (sizes parts)).length = sizes ss := by
        rw [List.length_drop, h, sizes_node]
        omega
      rw [List.cons_append, outlines, outlines, List.take_append_of_le_length hle,
        List.drop_append_of_le_length hle, ih hrest, List.cons_append]

/-! ## 3. Outlines are nested -/

/-- The place of a node is the extent of some of the tokens. -/
theorem exists_segment (ss : List Shape) (ts : List Token) (hsolid : Solid ss)
    (hsize : ts.length = sizes ss) :
    ∀ o ∈ outlines ss ts, ∃ front seg back, ts = front ++ seg ++ back ∧ seg ≠ [] ∧
      o.span = extent seg := by
  induction ss generalizing ts with
  | nil => simp
  | cons s ss ih =>
    cases s with
    | token =>
      cases ts with
      | nil => simp at hsize
      | cons t ts =>
        rw [outlines_token]
        intro o ho
        obtain ⟨front, seg, back, rfl, hseg, hspan⟩ :=
          ih ts (solid_token.mp hsolid) (by simpa using hsize) o ho
        exact ⟨t :: front, seg, back, rfl, hseg, hspan⟩
    | node parts =>
      obtain ⟨hpos, -, hrest⟩ := solid_node.mp hsolid
      rw [sizes_node] at hsize
      rw [outlines]
      intro o ho
      rcases List.mem_cons.mp ho with rfl | ho
      · -- The node has the first tokens.
        refine ⟨[], ts.take (sizes parts), ts.drop (sizes parts), ?_, ?_, rfl⟩
        · rw [List.nil_append, List.take_append_drop]
        · rw [← List.length_pos_iff, List.length_take]
          omega
      · -- What comes behind it has some of the others.
        have hlen : (ts.drop (sizes parts)).length = sizes ss := by
          rw [List.length_drop]
          omega
        obtain ⟨front, seg, back, htail, hseg, hspan⟩ := ih _ hrest hlen o ho
        refine ⟨ts.take (sizes parts) ++ front, seg, back, ?_, hseg, hspan⟩
        rw [List.append_assoc, List.append_assoc, ← List.append_assoc front, ← htail,
          List.take_append_drop]

/-- Over tokens in order every outline is nested, and outlines side by side stand one behind the
other. -/
theorem nested_outlines (ss : List Shape) (ts : List Token) (hsolid : Solid ss)
    (hsize : ts.length = sizes ss) (hordered : Ordered ts) :
    (∀ o ∈ outlines ss ts, o.Nested) ∧
      (outlines ss ts).Pairwise fun o o' => o.span.Precedes o'.span := by
  fun_induction outlines ss ts with
  | case1 => simp
  | case2 rest ts ih =>
    cases ts with
    | nil => simp at hsize
    | cons t ts =>
      exact ih (solid_token.mp hsolid) (by simpa using hsize)
        (hordered.sublist (List.sublist_cons_self t ts))
  | case3 parts rest ts ihparts ihrest =>
    obtain ⟨hpos, hparts, hrest⟩ := solid_node.mp hsolid
    rw [sizes_node] at hsize
    have hsplit : ts.take (sizes parts) ++ ts.drop (sizes parts) = ts := List.take_append_drop _ _
    have hfront : (ts.take (sizes parts)).length = sizes parts := by
      rw [List.length_take]
      omega
    have hback : (ts.drop (sizes parts)).length = sizes rest := by
      rw [List.length_drop]
      omega
    have hne : ts.take (sizes parts) ≠ [] := by
      rw [← List.length_pos_iff, hfront]
      exact hpos
    rw [← hsplit] at hordered
    obtain ⟨hinner, happart⟩ := ihparts hparts hfront hordered.left
    obtain ⟨hothers, hbehind⟩ := ihrest hrest hback hordered.right
    constructor
    · intro o ho
      rcases List.mem_cons.mp ho with rfl | ho
      · refine .node (hordered.left.extent_proper hne) ?_ happart hinner
        -- What is inside has some of the tokens of the node.
        intro o ho
        obtain ⟨front, seg, back, hseg, hsegne, hspan⟩ := exists_segment _ _ hparts hfront o ho
        have hsegment := hordered.left
        rw [hseg] at hsegment
        rw [hspan, hseg]
        exact hsegment.extent_within hsegne
      · exact hothers o ho
    · refine List.pairwise_cons.mpr ⟨?_, hbehind⟩
      intro o ho
      obtain ⟨front, seg, back, hseg, hsegne, hspan⟩ := exists_segment _ _ hrest hback o ho
      rw [hseg, ← List.append_assoc, ← List.append_assoc] at hordered
      show Span.Precedes (extent _) o.span
      rw [hspan]
      exact hordered.left.ends.extent_precedes hne hsegne

end Shape

end Keyplan
