/-!
Places in a source text. A position is a row and a column, both counted from 1; a span runs from
one position up to, and not including, another. The zero position and the zero span mean "nowhere",
which is what parts of a description written by hand carry.
-/

namespace Keyplan

/-- A row and a column of a source text. -/
structure Position where
  row : Int := 0
  col : Int := 0
  deriving DecidableEq, Repr, Inhabited

namespace Position

/-- The position that means "nowhere". -/
def isZero (p : Position) : Bool :=
  p.row == 0 && p.col == 0

/-- Reading order: by row, then by column. -/
def before (p q : Position) : Bool :=
  if p.row = q.row then p.col < q.col else p.row < q.row

/-- `row:col`. -/
def text (p : Position) : String :=
  s!"{p.row}:{p.col}"

end Position

/-- The half-open range from one position to another. -/
structure Span where
  start : Position := {}
  stop : Position := {}
  deriving DecidableEq, Repr, Inhabited

namespace Span

/-- The span that means "nowhere". -/
def zero : Span := {}

def isZero (s : Span) : Bool :=
  s.start.isZero && s.stop.isZero

def point (p : Position) : Span :=
  ⟨p, p⟩

/-- The empty span where `s` starts. -/
def first (s : Span) : Span :=
  point s.start

/-- The empty span where `s` stops. -/
def last (s : Span) : Span :=
  point s.stop

/-- The smallest span that covers both; the zero span covers nothing. -/
def join (s t : Span) : Span :=
  if s.isZero then t
  else if t.isZero then s
  else
    { start := if t.start.before s.start then t.start else s.start
      stop := if s.stop.before t.stop then t.stop else s.stop }

theorem isZero_iff {s : Span} : s.isZero ↔ s = zero := by
  obtain ⟨⟨row, col⟩, row', col'⟩ := s
  simp [isZero, Position.isZero, zero, and_assoc]

theorem zero_join (s : Span) : zero.join s = s :=
  rfl

theorem join_zero (s : Span) : s.join zero = s := by
  unfold join
  split
  · rename_i h
    exact (isZero_iff.mp h).symm
  · rfl

/-- Spans that are somewhere are joined at their ends. -/
theorem join_of_isZero_eq_false {s t : Span} (hs : s.isZero = false) (ht : t.isZero = false) :
    s.join t =
      { start := if t.start.before s.start then t.start else s.start
        stop := if s.stop.before t.stop then t.stop else s.stop } := by
  simp [join, hs, ht]

/-- `row:col-row:col`. -/
def text (s : Span) : String :=
  s!"{s.start.text}-{s.stop.text}"

/-- The running joins of `acc` with the spans of a list. -/
def joinsFrom (acc : Span) : List Span → List Span
  | [] => []
  | s :: rest => acc.join s :: joinsFrom (acc.join s) rest

/-- The running joins of a list of spans, one for each of its non-empty initial segments. -/
def joins (spans : List Span) : List Span :=
  joinsFrom zero spans

end Span

end Keyplan
