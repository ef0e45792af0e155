import Keyplan.Proofs.Grammar.Shapes
import Keyplan.Proofs.Outcome

/-!
# Located diagnostics — places that are somewhere

A located span is not the zero span and does not stop before it starts. Whatever is made of places
on rows of a source is located again: the place from one to another, and the points where one
starts and stops. The tokens of every text, and its end, stand on rows.
-/

namespace Keyplan

open Outcome

/-! ## 1. Places -/

namespace Span

/-- A place that is somewhere and does not stop before it starts. -/
def Located (s : Span) : Prop :=
  s.isZero = false ∧ ¬ s.stop.before s.start

/-- A place that starts on a row and does not stop before it starts. -/
structure OnRow (s : Span) : Prop where
  row : 0 < s.start.row
  ordered : ¬ s.stop.before s.start

namespace OnRow

variable {s t : Span}

theorem located (h : s.OnRow) : s.Located :=
  ⟨isZero_of_row h.row, h.ordered⟩

theorem join (hs : s.OnRow) (ht : t.OnRow) : (s.join t).OnRow := by
  obtain ⟨hsrow, hsorder⟩ := hs
  obtain ⟨htrow, htorder⟩ := ht
  rw [join_of_isZero_eq_false (isZero_of_row hsrow) (isZero_of_row htrow)]
  constructor
  · dsimp only
    split <;> assumption
  · dsimp only
    split <;> split <;> simp only [Position.before_iff] at * <;> omega

theorem point {p : Position} (h : 0 < p.row) : (Span.point p).OnRow :=
  ⟨h, by simp [Span.point, Position.before]⟩

theorem first (h : s.OnRow) : s.first.OnRow :=
  point h.row

theorem last (h : s.OnRow) : s.last.OnRow := by
  apply point
  have hrow := h.row
  have horder := h.ordered
  rw [Position.before_iff] at horder
  omega

end OnRow

end Span

inductive Outline.Everywhere (P : Span → Prop) : Outline → Prop
  | node {span : Span} {parts : List Outline} (here : P span)
    (inside : ∀ o ∈ parts, o.Everywhere P) : Everywhere P (node span parts)

namespace Outline

variable {P : Span → Prop} {span : Span} {parts : List Outline}

theorem everywhere_node :
    (node span parts).Everywhere P ↔ P span ∧ ∀ o ∈ parts, o.Everywhere P :=
  ⟨fun | .node here inside => ⟨here, inside⟩, fun h => .node h.1 h.2⟩

theorem Everywhere.here {o : Outline} (h : o.Everywhere P) : P o.span := by
  cases h with
  | node here inside => exact here

theorem Everywhere.part (h : (Outline.node span parts).Everywhere P) {o : Outline}
    (ho : o ∈ parts) : o.Everywhere P :=
  (everywhere_node.mp h).2 o ho

/-- The place of the name that many nodes start with. -/
theorem Everywhere.name {s : Span} (h : (Outline.node span (mark s :: parts)).Everywhere P) :
    P s :=
  (h.part List.mem_cons_self).here

theorem everywhere_mark : (mark span).Everywhere P ↔ P span := by
  simp [mark, everywhere_node]

end Outline

/-! ## 2. Diagnostics -/

structure Diagnostic.OnRows (d : Diagnostic) : Prop where
  span : d.span.OnRow
  labels : ∀ l ∈ d.labels, l.span.OnRow

theorem Diagnostic.onRows_of_span {d : Diagnostic} (h : d.span.OnRow) (hlabels : d.labels = []) :
    d.OnRows :=
  ⟨h, by simp [hlabels]⟩

/-- A cause that is about a name that was looked up. -/
def Cause.isLookup : Cause → Bool
  | meaning .unknownBackend => true
  | meaning .unknownLayer => true
  | meaning .unknownNamedKey => true
  | _ => false

/-- A diagnostic on rows that is about the form of a description, and not about a name in it. -/
structure Diagnostic.Structural (d : Diagnostic) : Prop extends d.OnRows where
  noLookup : d.cause.isLookup = false

theorem Diagnostic.structural_of_span {d : Diagnostic} (h : d.span.OnRow)
    (hlabels : d.labels = []) (hcause : d.cause.isLookup = false) : d.Structural :=
  ⟨onRows_of_span h hlabels, hcause⟩

/-! ## 3. Tokens -/

namespace TokenStream

theorem row_after_pos {p : Position} (h : 0 < p.row) (g : Glyph) : 0 < (p.after g).row := by
  unfold Position.after
  split
  · show 0 < p.row + 1
    omega
  · exact h

theorem row_next_pos (l : Lexeme) {p : Position} (h : 0 < p.row) : 0 < (l.next p).row := by
  unfold Lexeme.next
  generalize l.text = t
  induction t generalizing p with
  | nil => exact h
  | cons g t ih => exact ih (row_after_pos h g)

theorem row_locate_pos {p : Position} (h : 0 < p.row) (ls : List Lexeme) :
    ∀ e ∈ Lexeme.locate p ls, 0 < e.2.row := by
  induction ls generalizing p with
  | nil => simp [Lexeme.locate]
  | cons l ls ih =>
    rw [Lexeme.locate]
    exact List.forall_mem_cons.mpr ⟨h, ih (row_next_pos l h)⟩

theorem spanAt_onRow (l : Lexeme) {p : Position} (h : 0 < p.row) : (l.spanAt p).OnRow := by
  refine ⟨h, ?_⟩
  simp only [Lexeme.spanAt, Position.before_iff]
  omega

theorem onRow_of_mem_tokens {source : Text} : ∀ t ∈ (ofText source).tokens, t.span.OnRow := by
  intro t ht
  obtain ⟨⟨l, p⟩, he, ht⟩ := List.mem_filterMap.mp ht
  obtain ⟨kind, -, rfl⟩ := Option.map_eq_some_iff.mp ht
  exact spanAt_onRow l (row_locate_pos Int.one_pos _ _ he)

theorem row_stop_pos (source : Text) : 0 < (ofText source).stop.row := by
  unfold ofText
  dsimp only
  split
  · exact Int.one_pos
  · rename_i l p hlast
    have hp : 0 < p.row := row_locate_pos Int.one_pos _ _ (List.mem_of_getLast? hlast)
    unfold Lexeme.endPosition
    split
    · show 0 < p.row + 1
      omega
    · exact hp

end TokenStream

end Keyplan
