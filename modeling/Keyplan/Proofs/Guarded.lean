import Keyplan.Proofs.Outcome

/-!
# Guarded runs — looking into lists by position

A guarded run reads and writes lists by position and goes round its loops a bounded number of
times. It misses when a position lies outside of a list, when it uses something that is not there,
or when a loop goes round too often. A run that follows a plain computation never misses, and it
ends as that computation does.
-/

namespace Keyplan

/-- A computation that fails with a diagnostic, or misses. -/
abbrev Guarded (α : Type) := ExceptT Diagnostic Option α

namespace Guarded

variable {α β γ δ : Type}

def miss : Guarded α := (none : Option (Except Diagnostic α))

/-- A computation that cannot miss. -/
def plain (x : Except Diagnostic α) : Guarded α := some x

/-- What has to be there. -/
def present : Option α → Guarded α
  | some a => pure a
  | none => miss

/-- The item at position `i`. -/
def item (xs : List α) (i : Int) : Guarded α :=
  if 0 ≤ i then present xs[i.toNat]? else miss

/-- The items from position `i` up to position `j`. -/
def slice (xs : List α) (i j : Int) : Guarded (List α) :=
  if 0 ≤ i ∧ i ≤ j ∧ j ≤ xs.length then pure ((xs.take j.toNat).drop i.toNat) else miss

/-- The list with another item at position `i`. -/
def update (xs : List α) (i : Int) (f : α → α) : Guarded (List α) := do
  let x ← item xs i
  return xs.set i.toNat (f x)

def blanks (n : Int) : Guarded (List Char) :=
  if 0 ≤ n then pure (List.replicate n.toNat ' ') else miss

/-! ## Looks that do not miss -/

theorem item_eq {xs : List α} {i : Nat} {x : α} (h : xs[i]? = some x) : item xs i = pure x := by
  unfold item
  rw [if_pos (Int.natCast_nonneg i), Int.toNat_natCast, h]
  rfl

theorem item_last {xs : List α} {x : α} (h : xs.getLast? = some x) :
    item xs (xs.length - 1) = pure x := by
  have hpos : 0 < xs.length := List.length_pos_iff.mpr (by rintro rfl; cases h)
  have hlast : ((xs.length : Int) - 1) = ((xs.length - 1 : Nat) : Int) := by omega
  rw [hlast]
  exact item_eq (by rw [← h, List.getLast?_eq_getElem?])

theorem slice_dropLast {xs : List α} (h : 1 ≤ xs.length) :
    slice xs 0 (xs.length - 1) = pure xs.dropLast := by
  have hlast : ((xs.length : Int) - 1).toNat = xs.length - 1 := by omega
  unfold slice
  rw [if_pos (by omega), hlast, List.dropLast_eq_take]
  rfl

theorem slice_tail {xs : List α} (h : 1 ≤ xs.length) :
    slice xs 1 xs.length = pure xs.tail := by
  unfold slice
  rw [if_pos (by omega), Int.toNat_natCast, List.take_length]
  exact congrArg pure List.drop_one

/-- What stands between two quotes. -/
theorem slice_inner {xs : List α} (h : 2 ≤ xs.length) :
    slice xs 1 (xs.length - 1) = pure xs.tail.dropLast := by
  have hlast : ((xs.length : Int) - 1).toNat = xs.length - 1 := by omega
  unfold slice
  rw [if_pos (by omega), hlast, ← List.dropLast_eq_take, ← List.tail_dropLast]
  exact congrArg pure List.drop_one

theorem update_eq {xs : List α} {i : Nat} {x : α} (h : xs[i]? = some x) (f : α → α) :
    update xs i f = pure (xs.set i (f x)) := by
  unfold update
  rw [item_eq h]
  rfl

theorem blanks_eq {n : Int} (h : 0 ≤ n) : blanks n = pure (List.replicate n.toNat ' ') := by
  unfold blanks
  rw [if_pos h]

theorem mapM_eq_pure {xs : List α} {k : α → Guarded β} {f : α → β}
    (h : ∀ x ∈ xs, k x = pure (f x)) : xs.mapM k = pure (xs.map f) := by
  induction xs with
  | nil => rfl
  | cons x xs ih =>
    rw [List.mapM_cons, h x List.mem_cons_self, pure_bind,
      ih fun y hy => h y (List.mem_cons_of_mem x hy), pure_bind]
    rfl

/-- Going through the first positions of a list is going through its first items. -/
theorem mapM_item {xs : List α} {n : Nat} (h : n ≤ xs.length) :
    (List.range n).mapM (fun i : Nat => item xs i) = pure (xs.take n) := by
  -- On the number of positions; the last of them is the item behind those before.
  induction n with
  | zero => rfl
  | succ n ih =>
    have hitem : xs[n]? = some xs[n] := List.getElem?_eq_getElem h
    rw [List.range_succ, List.mapM_append, ih (Nat.le_of_succ_le h), pure_bind, List.mapM_cons,
      item_eq hitem, pure_bind, List.take_add_one, hitem]
    rfl

/-! ## Following a computation -/

/-- The run does not miss: it fails as the computation does, or their results are related. -/
inductive Follows (R : β → α → Prop) : Guarded α → Except Diagnostic β → Prop
  | ok {a : α} {b : β} (h : R b a) : Follows R (pure a) (.ok b)
  | error (d : Diagnostic) : Follows R (throw d) (.error d)

namespace Follows

variable {R : β → α → Prop} {S : δ → γ → Prop}

theorem bind {x : Guarded α} {y : Except Diagnostic β} {f : α → Guarded γ}
    {g : β → Except Diagnostic δ} (hx : Follows R x y)
    (hk : ∀ b a, y = .ok b → R b a → Follows S (f a) (g b)) : Follows S (x >>= f) (y >>= g) := by
  cases hx with
  | ok h => exact hk _ _ rfl h
  | error d => exact .error d

/-- A run that ends before the computation has put its result together. -/
theorem bind_ok {x : Guarded α} {y : Except Diagnostic β} {g : β → Except Diagnostic δ}
    {S : δ → α → Prop} (hx : Follows R x y)
    (hk : ∀ b a, R b a → ∃ d, g b = .ok d ∧ S d a) : Follows S x (y >>= g) := by
  cases hx with
  | ok h =>
    obtain ⟨d, hd, hS⟩ := hk _ _ h
    rw [Outcome.ok_bind, hd]
    exact .ok hS
  | error d => exact .error d

theorem plain (x : Except Diagnostic α) : Follows Eq (plain x) x := by
  cases x with
  | ok a => exact .ok rfl
  | error d => exact .error d

theorem eq_plain {x : Guarded α} {y : Except Diagnostic α} (h : Follows Eq x y) :
    x = Guarded.plain y := by
  cases h with
  | ok h => rw [h]; rfl
  | error d => rfl

theorem map (f : α → β) {x : Guarded α} {y : Except Diagnostic α} (h : Follows Eq x y) :
    Follows Eq (f <$> x) (y.map f) := by
  cases h with
  | ok h => exact .ok (congrArg f h)
  | error d => exact .error d

theorem mapM {k : α → Guarded γ} {k' : α → Except Diagnostic γ} (xs : List α)
    (hk : ∀ x ∈ xs, Follows Eq (k x) (k' x)) : Follows Eq (xs.mapM k) (xs.mapM k') := by
  induction xs with
  | nil => exact .ok rfl
  | cons x xs ih =>
    rw [List.mapM_cons, List.mapM_cons]
    refine (hk x List.mem_cons_self).bind fun y y' _ hy => ?_
    refine (ih fun z hz => hk z (List.mem_cons_of_mem _ hz)).bind fun ys ys' _ hys => ?_
    exact .ok (by rw [hy, hys])

/-- What relates the states before a loop also relates them behind it when every round keeps it. -/
theorem foldlM {ι : Type} {k : α → ι → Guarded α} {k' : β → ι → Except Diagnostic β} (xs : List ι)
    (hk : ∀ x ∈ xs, ∀ b a, R b a → Follows R (k a x) (k' b x)) {a : α} {b : β} (h : R b a) :
    Follows R (xs.foldlM k a) (xs.foldlM k' b) := by
  induction xs generalizing a b with
  | nil => exact .ok h
  | cons x xs ih =>
    rw [List.foldlM_cons, List.foldlM_cons]
    refine (hk x List.mem_cons_self b a h).bind fun b' a' _ h' => ?_
    exact ih (fun y hy => hk y (List.mem_cons_of_mem x hy)) h'

end Follows

end Guarded

end Keyplan
