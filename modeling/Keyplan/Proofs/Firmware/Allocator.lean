import Keyplan.Firmware.Allocator
import Keyplan.Proofs.Layout.Resolution
import Keyplan.Proofs.OrderedMap

/-!
# Slot allocation — a counter below the matrix

An allocator that starts below a matrix of width `w` and height `h` numbers its slots: slot `i`
is at column `i mod w` of row `h + i div w`. Its two counters always say where slot number
`slots.length` goes.
-/

namespace Keyplan.Firmware.Allocator

open Outcome

variable {κ : Type}

/-- The place of slot `i` below a matrix of width `w` and height `h`. -/
def slotAt (w h i : Nat) : MatrixPos :=
  ⟨i % w, h + i / w⟩

theorem slotAt_inj {w h i j : Nat} (e : slotAt w h i = slotAt w h j) : i = j := by
  obtain ⟨hmod, hdiv⟩ := MatrixPos.mk.inj e
  have hi := Nat.div_add_mod i w
  have hj := Nat.div_add_mod j w
  rw [show i / w = j / w by omega, hmod] at hi
  exact hi.symm.trans hj

/-- The slots handed out are numbered from zero, and the counters are those of the next one. -/
structure Counted (w h : Nat) (a : Allocator κ) : Prop where
  width_eq : a.width = w
  height_eq : a.height = h
  extraRows_eq : a.extraRows = a.slots.length / w + if a.slots.length % w = 0 then 0 else 1
  extraCols_eq : a.extraCols = a.slots.length % w
  slots_eq : a.slots.map (·.2) = (List.range a.slots.length).map (slotAt w h)
  keys_nodup : (OrderedMap.keys a.slots).Nodup

theorem counted_empty (w h : Nat) : Counted w h ({ width := w, height := h } : Allocator κ) :=
  ⟨rfl, rfl, by simp, by simp, rfl, .nil⟩

variable {w h : Nat} {a a' : Allocator κ}

namespace Counted

theorem slots_nodup (ha : a.Counted w h) : (a.slots.map (·.2)).Nodup := by
  rw [ha.slots_eq]
  refine List.Pairwise.map _ ?_ (List.nodup_range (n := a.slots.length))
  intro i j hne e
  exact hne (slotAt_inj e)

/-- A slot lies below the matrix and inside the extended one. -/
theorem bounds (ha : a.Counted w h) (hw : 0 < w) {k : κ} {pos : MatrixPos}
    (hmem : (k, pos) ∈ a.slots) :
    h ≤ pos.row ∧ pos.row < h + a.extraRows ∧ pos.col < w := by
  have hpos : pos ∈ a.slots.map (·.2) := List.mem_map.mpr ⟨(k, pos), hmem, rfl⟩
  rw [ha.slots_eq] at hpos
  obtain ⟨i, hi, rfl⟩ := List.mem_map.mp hpos
  have hi : i < a.slots.length := List.mem_range.mp hi
  refine ⟨Nat.le_add_right _ _, ?_, Nat.mod_lt _ hw⟩
  rw [ha.extraRows_eq]
  show h + i / w < _
  -- In a full extension the last slot is in the row before; else it is in the last row.
  have hdiv : i / w ≤ a.slots.length / w := Nat.div_le_div_right (Nat.le_of_lt hi)
  split
  · rename_i hfull
    have hmul := Nat.div_add_mod a.slots.length w
    rw [hfull, Nat.add_zero, Nat.mul_comm] at hmul
    have : i / w < a.slots.length / w := Nat.div_lt_of_lt_mul (by rw [Nat.mul_comm, hmul]; exact hi)
    omega
  · omega

end Counted

/-- The counters behind the next slot. -/
theorem next_counters (hw : 0 < w) (n : Nat) :
    (n + 1) / w + (if (n + 1) % w = 0 then 0 else 1) = n / w + 1 ∧
      (n + 1) % w = if w ≤ n % w + 1 then 0 else n % w + 1 := by
  have hn := Nat.div_add_mod n w
  have hlt := Nat.mod_lt n hw
  by_cases hlast : w ≤ n % w + 1
  -- The slot fills its row: the next one opens a new row.
  · have hsucc : n + 1 = w * (n / w + 1) := by
      rw [Nat.mul_add, Nat.mul_one]
      omega
    rw [if_pos hlast, hsucc, Nat.mul_mod_right, if_pos rfl, Nat.mul_div_cancel_left _ hw]
    exact ⟨rfl, rfl⟩
  -- There is room left in the row.
  · have hsucc : n + 1 = n % w + 1 + w * (n / w) := by omega
    have hmod : (n + 1) % w = n % w + 1 := by
      rw [hsucc, Nat.add_mul_mod_self_left, Nat.mod_eq_of_lt (by omega)]
    have hdiv : (n + 1) / w = n / w := by
      rw [hsucc, Nat.add_mul_div_left _ _ hw, Nat.div_eq_of_lt (by omega)]
      simp
    rw [hmod, hdiv, if_neg hlast, if_neg (by omega)]
    exact ⟨rfl, rfl⟩

def push (a : Allocator κ) (k : κ) (pos : MatrixPos) : Allocator κ :=
  { a with
    extraRows := if a.extraCols = 0 then a.extraRows + 1 else a.extraRows
    extraCols := if a.width ≤ a.extraCols + 1 then 0 else a.extraCols + 1
    slots := a.slots ++ [(k, pos)] }

namespace Counted

/-- A row is opened when the last one is full or there is none. -/
theorem next_row (ha : a.Counted w h) :
    (if a.extraCols = 0 then a.extraRows + 1 else a.extraRows) = a.slots.length / w + 1 := by
  rw [ha.extraCols_eq, ha.extraRows_eq]
  split <;> omega

theorem push (hw : 0 < w) (ha : a.Counted w h) {k : κ} (hfresh : k ∉ OrderedMap.keys a.slots) :
    (a.push k (slotAt w h a.slots.length)).Counted w h := by
  obtain ⟨hrows, hcols⟩ := next_counters hw a.slots.length
  refine ⟨ha.width_eq, ha.height_eq, ?_, ?_, ?_, ?_⟩
  · simp only [Allocator.push, List.length_append, List.length_singleton]
    rw [ha.next_row, hrows]
  · simp only [Allocator.push, List.length_append, List.length_singleton]
    rw [hcols, ha.extraCols_eq, ha.width_eq]
    split <;> split <;> omega
  · simp only [Allocator.push, List.map_append, List.length_append, List.length_singleton,
      List.range_succ]
    rw [ha.slots_eq]
    rfl
  · unfold OrderedMap.keys Allocator.push
    rw [List.map_append, List.nodup_append]
    refine ⟨ha.keys_nodup, by simp, ?_⟩
    intro x hx y hy e
    obtain rfl : y = k := List.mem_singleton.mp hy
    exact hfresh (e ▸ hx)

end Counted

/-- The slots take as many rows as they fill, the last one perhaps in part. -/
theorem Counted.extraRows_eq_div (hw : 0 < w) (ha : a.Counted w h) :
    a.extraRows = (a.slots.length + w - 1) / w := by
  rw [ha.extraRows_eq]
  generalize a.slots.length = n
  have hmod := Nat.div_add_mod n w
  have hlt := Nat.mod_lt n hw
  symm
  apply Nat.div_eq_of_lt_le
  · split
    · rw [Nat.add_zero, Nat.mul_comm]
      omega
    · rw [Nat.add_mul, Nat.one_mul, Nat.mul_comm]
      omega
  · split
    · rw [Nat.add_zero, Nat.add_mul, Nat.one_mul, Nat.mul_comm]
      omega
    · rw [Nat.add_mul, Nat.add_mul, Nat.one_mul, Nat.mul_comm]
      omega

theorem Counted.extraRows_le (hw : 0 < w) (ha : a.Counted w h) (ha' : a'.Counted w h)
    (hslots : a.slots <+: a'.slots) : a.extraRows ≤ a'.extraRows := by
  rw [ha.extraRows_eq_div hw, ha'.extraRows_eq_div hw]
  apply Nat.div_le_div_right
  have hlen := hslots.length_le
  omega

variable [DecidableEq κ]

theorem allocate_known {k : κ} {pos : MatrixPos} (hknown : a.slots.get? k = some pos)
    (span : Span) : a.allocate k span = .ok (pos, a) := by
  rw [allocate, hknown]

/-- A key that was not asked for before gets the next slot, if the matrix can have that row. -/
theorem allocate_new (ha : a.Counted w h) {k : κ} (hnew : a.slots.get? k = none) (span : Span) :
    a.allocate k span = do
      let pos ← MatrixPos.locate (slotAt w h a.slots.length).col
        (slotAt w h a.slots.length).row span
      return (pos, a.push k pos) := by
  have hrow : a.height + ((a.slots.length / w + 1 : Nat) : Int) - 1 =
      (slotAt w h a.slots.length).row := by
    rw [ha.height_eq]
    simp only [slotAt]
    omega
  have hcol : (a.extraCols : Int) = (slotAt w h a.slots.length).col :=
    congrArg Nat.cast ha.extraCols_eq
  rw [← hrow, ← hcol, ← ha.next_row, allocate, hnew]
  rfl

/-- A key that was asked for before gets its slot again, and any other gets the next one. -/
theorem allocate_eq_ok (hw : 0 < w) (ha : a.Counted w h) {k : κ} {span : Span} {pos : MatrixPos}
    (halloc : a.allocate k span = .ok (pos, a')) :
    a'.Counted w h ∧ a'.slots.get? k = some pos ∧ a.slots <+: a'.slots := by
  cases hknown : a.slots.get? k with
  | some known =>
    rw [allocate_known hknown] at halloc
    obtain ⟨rfl, rfl⟩ := Prod.mk.inj (Except.ok.inj halloc)
    exact ⟨ha, hknown, List.prefix_refl _⟩
  | none =>
    rw [allocate_new ha hknown] at halloc
    obtain ⟨pos', hpos, halloc⟩ := bind_eq_ok_iff.mp halloc
    obtain ⟨rfl, rfl⟩ := Prod.mk.inj (pure_eq_ok_iff.mp halloc)
    obtain ⟨hcol, hrow, -, -⟩ := Layout.locate_eq_ok_iff.mp hpos
    have hslot : pos' = slotAt w h a.slots.length := by
      obtain ⟨c, r⟩ := pos'
      simp only [slotAt, MatrixPos.mk.injEq]
      simp only [slotAt] at hcol hrow
      omega
    subst hslot
    have ha' := ha.push hw (OrderedMap.get?_eq_none_iff.mp hknown)
    refine ⟨ha', ?_, List.prefix_append _ _⟩
    exact OrderedMap.get?_of_mem ha'.keys_nodup (List.mem_append_right _ List.mem_cons_self)

end Keyplan.Firmware.Allocator
