import Mathlib.Data.Int.Order.Basic
import Mathlib.Data.Multiset.Lattice
import Mathlib.Data.Prod.Lex
import Mathlib.Tactic.Lift
import Keyplan.Proofs.Outline

/-!
# Joins — the smallest span around others

Reading order is a linear order on positions, and two spans that are somewhere are joined at the
earlier start and the later stop. The zero span covers nothing, so it lies in every span. With it
at the bottom, the spans that do not stop before they start are a semilattice whose suprema are the
joins. So the hull of some spans is their supremum, whichever two of them are joined first.
-/

namespace Keyplan

/-! ## 1. Reading order -/

namespace Position

variable {p q : Position}

/-- Row and column, compared by the row first. -/
def key (p : Position) : Int ×ₗ Int :=
  toLex (p.row, p.col)

theorem key_injective : Function.Injective key := by
  rintro ⟨row, col⟩ ⟨row', col'⟩ h
  simpa [key] using h

instance : LinearOrder Position :=
  LinearOrder.lift' key key_injective

theorem before_iff_lt : p.before q ↔ p < q := by
  have hkey : p < q ↔ p.key < q.key := Iff.rfl
  rw [hkey, key, key, Prod.Lex.toLex_lt_toLex, before_iff]

end Position

/-! ## 2. Spans within spans -/

namespace Span

variable {s t u v : Span}

theorem within_iff : s.Within t ↔ t.start ≤ s.start ∧ s.stop ≤ t.stop := by
  simp only [Within, Position.before_iff_lt, not_lt]

theorem within_refl (s : Span) : s.Within s :=
  within_iff.mpr ⟨le_rfl, le_rfl⟩

theorem Within.trans (h : s.Within t) (h' : t.Within u) : s.Within u := by
  rw [within_iff] at *
  exact ⟨h'.1.trans h.1, h.2.trans h'.2⟩

theorem Within.antisymm (h : s.Within t) (h' : t.Within s) : s = t := by
  rw [within_iff] at h h'
  have hstart : s.start = t.start := le_antisymm h'.1 h.1
  have hstop : s.stop = t.stop := le_antisymm h.2 h'.2
  cases s
  cases t
  exact congrArg₂ mk hstart hstop

/-- A span that does not stop before it starts. -/
def Forward (s : Span) : Prop :=
  ¬ s.stop.before s.start

instance : Decidable s.Forward :=
  inferInstanceAs (Decidable (¬ _))

theorem forward_iff : s.Forward ↔ s.start ≤ s.stop := by
  rw [Forward, Position.before_iff_lt, not_lt]

theorem forward_zero : zero.Forward := by
  decide

/-- Nothing but the zero span lies within the zero span. -/
theorem Forward.eq_zero (hs : s.Forward) (h : s.Within zero) : s = zero := by
  have hstart := (within_iff.mp h).1
  have hstop := (within_iff.mp h).2
  apply h.antisymm
  rw [within_iff]
  rw [forward_iff] at hs
  exact ⟨hs.trans hstop, hstart.trans hs⟩

/-- All of `s` is in `t`. The zero span covers nothing. -/
def LiesIn (s t : Span) : Prop :=
  s = zero ∨ s.Within t

theorem LiesIn.trans (hs : s.Forward) (h : s.LiesIn t) (h' : t.LiesIn u) : s.LiesIn u := by
  rcases h with rfl | h
  · exact .inl rfl
  rcases h' with rfl | h'
  · exact .inl (hs.eq_zero h)
  · exact .inr (h.trans h')

theorem LiesIn.antisymm (hs : s.Forward) (ht : t.Forward) (h : s.LiesIn t) (h' : t.LiesIn s) :
    s = t := by
  rcases h with rfl | h
  · rcases h' with rfl | h'
    · rfl
    · exact (ht.eq_zero h').symm
  rcases h' with rfl | h'
  · exact hs.eq_zero h
  · exact h.antisymm h'

/-! ## 3. Joins -/

/-- Spans that are somewhere are joined at the earlier start and the later stop. -/
theorem join_eq (hs : s ≠ zero) (ht : t ≠ zero) :
    s.join t = ⟨min s.start t.start, max s.stop t.stop⟩ := by
  have hs : s.isZero = false := Bool.eq_false_iff.mpr (isZero_iff.ne.mpr hs)
  have ht : t.isZero = false := Bool.eq_false_iff.mpr (isZero_iff.ne.mpr ht)
  rw [join_of_isZero_eq_false hs ht, min_comm, min_def_lt, max_def_lt]
  simp only [Position.before_iff_lt]

theorem join_comm (s t : Span) : s.join t = t.join s := by
  by_cases hs : s = zero
  · rw [hs, zero_join, join_zero]
  by_cases ht : t = zero
  · rw [ht, zero_join, join_zero]
  rw [join_eq hs ht, join_eq ht hs, min_comm, max_comm]

theorem Forward.join (hs : s.Forward) (ht : t.Forward) : (s.join t).Forward := by
  by_cases hs' : s = zero
  · rwa [hs', zero_join]
  by_cases ht' : t = zero
  · rwa [ht', join_zero]
  rw [join_eq hs' ht', forward_iff]
  rw [forward_iff] at hs
  exact (min_le_left _ _).trans (hs.trans (le_max_left _ _))

theorem within_join_left (hs : s ≠ zero) (ht : t ≠ zero) : s.Within (s.join t) := by
  rw [join_eq hs ht]
  exact within_iff.mpr ⟨min_le_left _ _, le_max_left _ _⟩

theorem within_join_right (hs : s ≠ zero) (ht : t ≠ zero) : t.Within (s.join t) := by
  rw [join_comm]
  exact within_join_left ht hs

/-- Whatever contains two spans contains their join. -/
theorem Within.join (hs : s ≠ zero) (ht : t ≠ zero) (h : s.Within v) (h' : t.Within v) :
    (s.join t).Within v := by
  rw [within_iff] at h h'
  rw [join_eq hs ht]
  exact within_iff.mpr ⟨le_min h.1 h'.1, max_le h.2 h'.2⟩

theorem liesIn_join_left (s t : Span) : s.LiesIn (s.join t) := by
  by_cases hs : s = zero
  · exact .inl hs
  by_cases ht : t = zero
  · rw [ht, join_zero]
    exact .inr (within_refl s)
  exact .inr (within_join_left hs ht)

theorem liesIn_join_right (s t : Span) : t.LiesIn (s.join t) := by
  rw [join_comm]
  exact liesIn_join_left t s

theorem LiesIn.join (h : s.LiesIn v) (h' : t.LiesIn v) : (s.join t).LiesIn v := by
  by_cases hs : s = zero
  · rwa [hs, zero_join]
  by_cases ht : t = zero
  · rwa [ht, join_zero]
  exact .inr (.join hs ht (h.resolve_left hs) (h'.resolve_left ht))

theorem join_liesIn_iff (hs : s.Forward) (ht : t.Forward) :
    (s.join t).LiesIn v ↔ s.LiesIn v ∧ t.LiesIn v :=
  ⟨fun h => ⟨(liesIn_join_left s t).trans hs h, (liesIn_join_right s t).trans ht h⟩,
    fun h => h.1.join h.2⟩

end Span

/-! ## 4. The semilattice of spans -/

/-- The spans that do not stop before they start. -/
abbrev ForwardSpan : Type :=
  { s : Span // s.Forward }

namespace ForwardSpan

open Keyplan.Span

instance : PartialOrder ForwardSpan where
  le r s := r.1.LiesIn s.1
  le_refl r := .inr (within_refl r.1)
  le_trans r _ _ := LiesIn.trans r.2
  le_antisymm r s h h' := Subtype.ext (LiesIn.antisymm r.2 s.2 h h')

instance : SemilatticeSup ForwardSpan where
  sup r s := ⟨r.1.join s.1, r.2.join s.2⟩
  le_sup_left r s := liesIn_join_left r.1 s.1
  le_sup_right r s := liesIn_join_right r.1 s.1
  sup_le _ _ _ := LiesIn.join

instance : OrderBot ForwardSpan where
  bot := ⟨zero, forward_zero⟩
  bot_le _ := .inl rfl

@[simp] theorem coe_sup (r s : ForwardSpan) : (r ⊔ s).1 = r.1.join s.1 := rfl

@[simp] theorem coe_bot : (⊥ : ForwardSpan).1 = zero := rfl

/-- The supremum of some spans is the smallest span around them, also among the spans that stop
before they start. -/
theorem sup_liesIn_iff (rs : Multiset ForwardSpan) {v : Span} :
    rs.sup.1.LiesIn v ↔ ∀ r ∈ rs, r.1.LiesIn v := by
  induction rs using Multiset.induction with
  | empty => simp [LiesIn]
  | cons r rs ih =>
    rw [Multiset.sup_cons, coe_sup, join_liesIn_iff r.2 rs.sup.2, ih, Multiset.forall_mem_cons]

theorem foldl_join (r : ForwardSpan) (rs : List ForwardSpan) :
    (rs.map Subtype.val).foldl Span.join r.1 = (rs.foldl (· ⊔ ·) r).1 := by
  induction rs generalizing r with
  | nil => rfl
  | cons s rs ih => exact ih (r ⊔ s)

theorem foldl_join_eq_sup (rs : List ForwardSpan) :
    (rs.map Subtype.val).foldl Span.join zero = (rs : Multiset ForwardSpan).sup.1 := by
  rw [Multiset.sup, Multiset.coe_fold_l]
  exact foldl_join ⊥ rs

end ForwardSpan

namespace Span

variable {s t u v : Span}

theorem join_assoc (hs : s.Forward) (ht : t.Forward) (hu : u.Forward) :
    (s.join t).join u = s.join (t.join u) :=
  congrArg Subtype.val (sup_assoc (⟨s, hs⟩ : ForwardSpan) ⟨t, ht⟩ ⟨u, hu⟩)

theorem join_self (hs : s.Forward) : s.join s = s :=
  congrArg Subtype.val (sup_idem (⟨s, hs⟩ : ForwardSpan))

/-! ## 5. Hulls -/

/-- Spans that are joined one after the other are joined to the smallest span around them. -/
theorem foldl_join_liesIn_iff {spans : List Span} (hspans : ∀ s ∈ spans, s.Forward) :
    (spans.foldl join zero).LiesIn v ↔ ∀ s ∈ spans, s.LiesIn v := by
  lift spans to List ForwardSpan using hspans
  rw [ForwardSpan.foldl_join_eq_sup, ForwardSpan.sup_liesIn_iff]
  simp

/-- A way to join spans, two at a time. -/
inductive Joining where
  | single (s : Span)
  | pair (left right : Joining)

namespace Joining

/-- The spans that are joined, from left to right. -/
def spans : Joining → List Span
  | single s => [s]
  | pair left right => left.spans ++ right.spans

/-- What is left when all have been joined. -/
def hull : Joining → Span
  | single s => s
  | pair left right => left.hull.join right.hull

/-- A hull is a supremum of the semilattice, which knows no order of the spans. -/
theorem exists_hull_eq_sup (j : Joining) (h : ∀ s ∈ j.spans, s.Forward) :
    ∃ rs : List ForwardSpan, rs.map Subtype.val = j.spans ∧
      j.hull = (rs : Multiset ForwardSpan).sup.1 := by
  induction j with
  | single s =>
    have hs : s.Forward := h s List.mem_cons_self
    exact ⟨[⟨s, hs⟩], rfl, (join_zero s).symm⟩
  | pair left right ihl ihr =>
    obtain ⟨hleft, hright⟩ := List.forall_mem_append.mp h
    obtain ⟨ls, hls, hl⟩ := ihl hleft
    obtain ⟨rs, hrs, hr⟩ := ihr hright
    refine ⟨ls ++ rs, by rw [List.map_append, hls, hrs, spans], ?_⟩
    rw [← Multiset.coe_add, Multiset.sup_add, ForwardSpan.coe_sup, ← hl, ← hr, hull]

/-- The order in which spans are joined does not matter. -/
theorem hull_eq_foldl_join {j : Joining} {spans : List Span} (hspans : ∀ s ∈ spans, s.Forward)
    (h : j.spans.Perm spans) : j.hull = spans.foldl join zero := by
  obtain ⟨rs, hrs, hhull⟩ := j.exists_hull_eq_sup fun s hs => hspans s (h.mem_iff.mp hs)
  lift spans to List ForwardSpan using hspans
  have hperm : rs.Perm spans := (List.map_perm_map_iff Subtype.val_injective).mp (hrs ▸ h)
  rw [hhull, Multiset.coe_eq_coe.mpr hperm, ForwardSpan.foldl_join_eq_sup]

end Joining

/-- Joins are least upper bounds. On spans that do not stop before they start, whatever the signs
of their coordinates, joining is commutative, associative and idempotent, and the zero span adds
nothing. The join of two spans that are somewhere is the smallest span with both inside. So the
hull of a list of spans is the smallest span around them, in whichever order and groups they are
joined. -/
theorem join_isLeast {s t u : Span} {spans : List Span} (hs : s.Forward) (ht : t.Forward)
    (hu : u.Forward) (hspans : ∀ s ∈ spans, s.Forward) :
    (s.join t).Forward ∧
    (s.join t = t.join s ∧ (s.join t).join u = s.join (t.join u) ∧ s.join s = s ∧
      zero.join s = s ∧ s.join zero = s) ∧
    (s ≠ zero → t ≠ zero → s.Within (s.join t) ∧ t.Within (s.join t) ∧
      ∀ v, s.Within v → t.Within v → (s.join t).Within v) ∧
    (∀ v, (spans.foldl join zero).LiesIn v ↔ ∀ s ∈ spans, s.LiesIn v) ∧
    ∀ j : Joining, j.spans.Perm spans → j.hull = spans.foldl join zero := by
  refine ⟨hs.join ht, ⟨join_comm s t, join_assoc hs ht hu, join_self hs, zero_join s, join_zero s⟩,
    ?_, fun v => foldl_join_liesIn_iff hspans, fun j => Joining.hull_eq_foldl_join hspans⟩
  intro hs' ht'
  exact ⟨within_join_left hs' ht', within_join_right hs' ht', fun v => Within.join hs' ht'⟩

/-- A word of a row. -/
def word : Span :=
  ⟨⟨1, 5⟩, ⟨1, 9⟩⟩

/-- Two characters of that word. -/
def middle : Span :=
  ⟨⟨1, 6⟩, ⟨1, 8⟩⟩

/-- A word of the next row. -/
def below : Span :=
  ⟨⟨2, 1⟩, ⟨2, 3⟩⟩

/-- The words in order, one of them twice, with a span that is nowhere. -/
def scattered : List Span :=
  [word, below, middle, below, zero]

/-- The last word is joined first and once more later. -/
def crosswise : Joining :=
  .pair (.pair (.single below) (.single zero))
    (.pair (.single middle) (.pair (.single word) (.single below)))

theorem join_isLeast_crosswise :
    (word.Forward ∧ below.Forward ∧ middle.Forward ∧ (∀ s ∈ scattered, s.Forward) ∧
      word ≠ zero ∧ below ≠ zero ∧ crosswise.spans.Perm scattered) ∧
    (word.join below).Forward ∧
    (word.join below = below.join word ∧
      (word.join below).join middle = word.join (below.join middle) ∧ word.join word = word ∧
      zero.join word = word ∧ word.join zero = word) ∧
    (word.Within (word.join below) ∧ below.Within (word.join below) ∧
      ∀ v, word.Within v → below.Within v → (word.join below).Within v) ∧
    (∀ v, (scattered.foldl join zero).LiesIn v ↔ ∀ s ∈ scattered, s.LiesIn v) ∧
    crosswise.hull = scattered.foldl join zero := by
  have hword : word.Forward := by decide
  have hbelow : below.Forward := by decide
  have hmiddle : middle.Forward := by decide
  have hword' : word ≠ zero := by decide
  have hbelow' : below ≠ zero := by decide
  have hscattered : ∀ s ∈ scattered, s.Forward := by decide
  have hperm : crosswise.spans.Perm scattered := by decide
  obtain ⟨hforward, hlaws, hleast, hlist, hhull⟩ := join_isLeast hword hbelow hmiddle hscattered
  exact ⟨⟨hword, hbelow, hmiddle, hscattered, hword', hbelow', hperm⟩, hforward, hlaws,
    hleast hword' hbelow', hlist, hhull crosswise hperm⟩

/-- The hull starts with the first word and stops with the last one. -/
example : crosswise.hull = ⟨⟨1, 5⟩, ⟨2, 3⟩⟩ := by
  decide

end Span

end Keyplan
