import Keyplan.Proofs.Firmware.Allocator
import Mathlib.Data.List.Induction

/-!
# Requests — an allocator over a whole run

Keys are numbered in the order they are first asked for, and key `i` has slot `i` of the counter
below the matrix, as long as a matrix can have that row. Every request is answered by the number of
its key alone: it does not matter how often a key was asked for, or how many requests failed.
-/

namespace Keyplan.Firmware.Allocator

variable {κ : Type} {w h : Nat} {a : Allocator κ} {ks : List κ}

/-! ## 1. Room -/

/-- The number of slots between a matrix of width `w` and height `h` and the last row that a matrix
can have. -/
def room (w h : Nat) : Nat :=
  w * (maxCoordinate + 1 - h)

theorem row_le_iff (hw : 0 < w) (i : Nat) : h + i / w ≤ maxCoordinate ↔ i < room w h := by
  rw [room, Nat.mul_comm, ← Nat.div_lt_iff_lt_mul hw]
  generalize i / w = row
  omega

theorem locate_slotAt (hw : 0 < w) (hw' : w ≤ maxCoordinate + 1) {i : Nat} (hi : i < room w h)
    (span : Span) :
    MatrixPos.locate (slotAt w h i).col (slotAt w h i).row span = .ok (slotAt w h i) := by
  apply Layout.locate_eq_ok_iff.mpr
  have hrow := (row_le_iff hw i).mpr hi
  have hcol : i % w < w := Nat.mod_lt i hw
  refine ⟨rfl, rfl, ?_, hrow⟩
  show i % w ≤ maxCoordinate
  omega

/-- A row that no matrix has is refused before the column is looked at. -/
theorem locate_below (col : Nat) {row : Nat} (hrow : maxCoordinate < row) (span : Span) :
    ∃ d, MatrixPos.locate col row span = .error d ∧
      d.cause = .meaning .coordinateOutOfRange ∧ d.span = span := by
  unfold MatrixPos.locate checkCoordinate
  rw [if_neg (by omega)]
  exact ⟨_, rfl, rfl, rfl⟩

/-! ## 2. Keys with slots -/

/-- The allocator behind requests for the keys `ks`, in the order they were first asked for: the
first of them have the slots, as many as there is room for. -/
structure Serves (w h : Nat) (ks : List κ) (a : Allocator κ) : Prop where
  counted : a.Counted w h
  nodup : ks.Nodup
  keys_eq : OrderedMap.keys a.slots = ks.take (room w h)

theorem serves_empty (w h : Nat) :
    Serves w h [] ({ width := w, height := h } : Allocator κ) :=
  ⟨counted_empty w h, List.nodup_nil, by simp [OrderedMap.keys]⟩

theorem Serves.length_slots (ha : Serves w h ks a) : a.slots.length = min (room w h) ks.length := by
  have hlen := congrArg List.length ha.keys_eq
  rwa [OrderedMap.keys, List.length_map, List.length_take] at hlen

/-- The entries are the keys with their slots, in the order of their numbers. -/
theorem Serves.slots_getElem? (hw : 0 < w) (ha : Serves w h ks a) (i : Nat) :
    a.slots[i]? =
      if h + i / w ≤ maxCoordinate then ks[i]?.map fun k => (k, slotAt w h i) else none := by
  have hkey : a.slots[i]?.map (·.1) = if i < room w h then ks[i]? else none := by
    rw [← List.getElem?_map, ← List.getElem?_take]
    exact congrArg (·[i]?) ha.keys_eq
  have hpos : a.slots[i]?.map (·.2) = ((List.range a.slots.length)[i]?).map (slotAt w h) := by
    rw [← List.getElem?_map, ← List.getElem?_map, ha.counted.slots_eq]
  simp only [row_le_iff hw]
  by_cases hi : i < a.slots.length
  · rw [List.getElem?_eq_getElem hi] at hkey hpos ⊢
    rw [List.getElem?_range hi] at hpos
    have hroom : i < room w h := by
      rw [ha.length_slots] at hi
      omega
    rw [if_pos hroom] at hkey ⊢
    rw [← hkey]
    exact congrArg some (Prod.ext rfl (Option.some.inj hpos))
  · rw [List.getElem?_eq_none (Nat.le_of_not_lt hi)] at hkey ⊢
    by_cases hroom : i < room w h
    · rw [if_pos hroom] at hkey ⊢
      rw [← hkey]
      rfl
    · rw [if_neg hroom]

variable [DecidableEq κ]

/-! ## 3. Requests -/

/-- The answer to a request for the slot of `k`, and the allocator that the next request is made to:
one that failed gives no other. -/
def request (a : Allocator κ) (k : κ) (span : Span) : Except Diagnostic MatrixPos × Allocator κ :=
  match a.allocate k span with
  | .ok (pos, a') => (.ok pos, a')
  | .error d => (.error d, a)

def requests (a : Allocator κ) :
    List (κ × Span) → List (Except Diagnostic MatrixPos) × Allocator κ
  | [] => ([], a)
  | (k, span) :: rest =>
    let (answer, a') := a.request k span
    let (answers, a'') := a'.requests rest
    (answer :: answers, a'')

/-- What a request at `span` for key number `i` is answered: slot `i`, unless no matrix has such a
row. -/
def IsAnswer (w h i : Nat) (span : Span) : Except Diagnostic MatrixPos → Prop
  | .ok pos => h + i / w ≤ maxCoordinate ∧ pos = slotAt w h i
  | .error d => maxCoordinate < h + i / w ∧ d.cause = .meaning .coordinateOutOfRange ∧ d.span = span

theorem request_known {k : κ} {pos : MatrixPos} (hknown : a.slots.get? k = some pos)
    (span : Span) : a.request k span = (.ok pos, a) := by
  rw [request, allocate_known hknown]

theorem request_new (hw : 0 < w) (hw' : w ≤ maxCoordinate + 1) (ha : a.Counted w h) {k : κ}
    (hnew : k ∉ OrderedMap.keys a.slots) (hroom : a.slots.length < room w h) (span : Span) :
    a.request k span = (.ok (slotAt w h a.slots.length), a.push k (slotAt w h a.slots.length)) := by
  rw [request, allocate_new ha (OrderedMap.get?_eq_none_iff.mpr hnew),
    locate_slotAt hw hw' hroom]
  rfl

/-- A request for a slot below all matrices fails and changes nothing. -/
theorem request_refused (hw : 0 < w) (ha : a.Counted w h) {k : κ}
    (hnew : k ∉ OrderedMap.keys a.slots) (hroom : room w h ≤ a.slots.length) (span : Span) :
    ∃ d, a.request k span = (.error d, a) ∧ d.cause = .meaning .coordinateOutOfRange ∧
      d.span = span := by
  have hrow : maxCoordinate < (slotAt w h a.slots.length).row := by
    have hfits := row_le_iff (h := h) hw a.slots.length
    show maxCoordinate < h + a.slots.length / w
    omega
  obtain ⟨d, hd, hcause, hspan⟩ := locate_below (slotAt w h a.slots.length).col hrow span
  refine ⟨d, ?_, hcause, hspan⟩
  rw [request, allocate_new ha (OrderedMap.get?_eq_none_iff.mpr hnew), hd]
  rfl

/-! ## 4. What a run preserves -/

def ask (ks : List κ) (k : κ) : List κ :=
  if k ∈ ks then ks else ks ++ [k]

theorem nodup_ask (h : ks.Nodup) (k : κ) : (ask ks k).Nodup := by
  unfold ask
  split
  · exact h
  · rename_i hk
    rw [List.nodup_append]
    refine ⟨h, by simp, ?_⟩
    rintro x hx y hy rfl
    exact hk (List.mem_singleton.mp hy ▸ hx)

theorem eraseDups_concat (ks : List κ) (k : κ) : (ks ++ [k]).eraseDups = ask ks.eraseDups k := by
  rw [List.eraseDups_append]
  by_cases hk : k ∈ ks
  · simp [ask, List.removeAll, hk]
  · simp [ask, List.removeAll, hk, List.eraseDups_cons]

theorem eraseDups_prefix (ks ks' : List κ) : ks.eraseDups <+: (ks ++ ks').eraseDups := by
  rw [List.eraseDups_append]
  exact List.prefix_append _ _

namespace Serves

/-- A request is answered by the number of its key, and the keys stay in order. -/
theorem request (hw : 0 < w) (hw' : w ≤ maxCoordinate + 1) (ha : Serves w h ks a) (k : κ)
    (span : Span) :
    Serves w h (ask ks k) (a.request k span).2 ∧
      ∃ i, (ask ks k)[i]? = some k ∧ IsAnswer w h i span (a.request k span).1 := by
  have hlen := ha.length_slots
  by_cases hk : k ∈ ks
  · rw [ask, if_pos hk]
    obtain ⟨i, hi⟩ := List.getElem?_of_mem hk
    obtain ⟨hlt, -⟩ := List.getElem?_eq_some_iff.mp hi
    by_cases hroom : i < room w h
    -- The key has slot `i` already.
    · have hslot : a.slots[i]? = some (k, slotAt w h i) := by
        rw [ha.slots_getElem? hw, if_pos ((row_le_iff hw i).mpr hroom), hi]
        rfl
      have hknown := OrderedMap.get?_of_mem ha.counted.keys_nodup (List.mem_of_getElem? hslot)
      rw [request_known hknown]
      exact ⟨ha, i, hi, (row_le_iff hw i).mpr hroom, rfl⟩
    -- The key was refused before, and is refused again.
    · have hnew : k ∉ OrderedMap.keys a.slots := by
        rw [ha.keys_eq]
        intro hmem
        obtain ⟨j, hj⟩ := List.getElem?_of_mem hmem
        rw [List.getElem?_take] at hj
        split at hj
        · have hij : j = i := (List.getElem?_inj (List.getElem?_eq_some_iff.mp hj).1 ha.nodup).mp
            (hj.trans hi.symm)
          omega
        · cases hj
      obtain ⟨d, hd, hcause, hspan⟩ := request_refused hw ha.counted hnew (by omega) span
      rw [hd]
      refine ⟨ha, i, hi, ?_, hcause, hspan⟩
      have hfits := row_le_iff (h := h) hw i
      omega
  · rw [ask, if_neg hk]
    have hnew : k ∉ OrderedMap.keys a.slots := by
      rw [ha.keys_eq]
      exact fun hmem => hk (List.mem_of_mem_take hmem)
    have hnodup : (ks ++ [k]).Nodup := by
      have hask := nodup_ask ha.nodup k
      rwa [ask, if_neg hk] at hask
    have hi : (ks ++ [k])[ks.length]? = some k := by simp
    by_cases hroom : ks.length < room w h
    -- All keys have slots, and the new one gets the next.
    · have hcount : a.slots.length = ks.length := by omega
      rw [request_new hw hw' ha.counted hnew (by omega), hcount]
      refine ⟨⟨hcount ▸ ha.counted.push hw hnew, hnodup, ?_⟩, ks.length, hi,
        (row_le_iff hw _).mpr hroom, rfl⟩
      have hkeys := ha.keys_eq
      rw [List.take_of_length_le (by omega)] at hkeys
      rw [List.take_of_length_le (by rw [List.length_append, List.length_singleton]; omega)]
      show (a.slots ++ [(k, slotAt w h ks.length)]).map Prod.fst = ks ++ [k]
      rw [List.map_append]
      exact congrArg (· ++ [k]) hkeys
    -- There is no room, and there will be none.
    · obtain ⟨d, hd, hcause, hspan⟩ := request_refused hw ha.counted hnew (by omega) span
      rw [hd]
      refine ⟨⟨ha.counted, hnodup, ?_⟩, ks.length, hi, ?_, hcause, hspan⟩
      · rw [ha.keys_eq, List.take_append_of_le_length (by omega)]
      · have hfits := row_le_iff (h := h) hw ks.length
        omega

theorem allocate (hw : 0 < w) (hw' : w ≤ maxCoordinate + 1) (ha : Serves w h ks a) (k : κ)
    (span : Span) (hroom : (ask ks k).length ≤ room w h) :
    ∃ pos a', a.allocate k span = .ok (pos, a') ∧ Serves w h (ask ks k) a' := by
  obtain ⟨ha', i, hi, hanswer⟩ := ha.request hw hw' k span
  unfold Allocator.request at ha' hanswer
  cases halloc : a.allocate k span with
  | ok found =>
    rw [halloc] at ha'
    exact ⟨found.1, found.2, rfl, ha'⟩
  | error d =>
    rw [halloc] at hanswer
    have hlt := (List.getElem?_eq_some_iff.mp hi).1
    have hfits := row_le_iff (h := h) hw i
    have hbelow := hanswer.1
    omega

/-- A whole run: `done` are the keys of the requests before it. -/
theorem requests (hw : 0 < w) (hw' : w ≤ maxCoordinate + 1) (calls : List (κ × Span))
    {done : List κ} (ha : Serves w h done.eraseDups a) :
    Serves w h (done ++ calls.map (·.1)).eraseDups (a.requests calls).2 ∧
      (a.requests calls).1.length = calls.length ∧
      ∀ (j : Nat) k span, calls[j]? = some (k, span) → ∃ i answer,
        (done ++ calls.map (·.1)).eraseDups[i]? = some k ∧
          (a.requests calls).1[j]? = some answer ∧ IsAnswer w h i span answer := by
  induction calls generalizing a done with
  | nil => exact ⟨by simpa [Allocator.requests] using ha, rfl, by simp⟩
  | cons call calls ih =>
    obtain ⟨k, span⟩ := call
    obtain ⟨ha₁, i, hi, hanswer⟩ := ha.request hw hw' k span
    rw [← eraseDups_concat] at ha₁ hi
    obtain ⟨ha', hlen, hrest⟩ := ih ha₁
    have hkeys : done ++ ((k, span) :: calls).map (·.1) = done ++ [k] ++ calls.map (·.1) := by simp
    rw [hkeys]
    refine ⟨ha', congrArg (· + 1) hlen, ?_⟩
    intro j k' span' hj
    cases j with
    | zero =>
      obtain ⟨rfl, rfl⟩ := Prod.mk.inj (Option.some.inj hj)
      -- Numbers are kept: later keys come behind the earlier ones.
      obtain ⟨later, hlater⟩ := eraseDups_prefix (done ++ [k]) (calls.map (·.1))
      refine ⟨i, _, ?_, rfl, hanswer⟩
      rw [← hlater, List.getElem?_append_left (List.getElem?_eq_some_iff.mp hi).1]
      exact hi
    | succ j => exact hrest j k' span' hj

end Serves

/-! ## 5. Runs of a new allocator -/

/-- An allocator and its answers to requests are those of a counter. -/
structure CountsSlots (w h : Nat) (calls : List (κ × Span))
    (answers : List (Except Diagnostic MatrixPos)) (a : Allocator κ) : Prop where
  /-- Every request for key number `i` has the answer of number `i`. -/
  length_eq : answers.length = calls.length
  answer : ∀ (j : Nat) k span, calls[j]? = some (k, span) → ∃ i answer,
    (calls.map (·.1)).eraseDups[i]? = some k ∧ answers[j]? = some answer ∧
      IsAnswer w h i span answer
  /-- Entry `i` is key number `i` with its slot, as far as there is room. -/
  entries : ∀ i, a.slots[i]? = if h + i / w ≤ maxCoordinate
    then (calls.map (·.1)).eraseDups[i]?.map fun k => (k, slotAt w h i) else none
  apart : (a.slots.map (·.2)).Nodup
  below : ∀ e ∈ a.slots, a.isExtra e.2.row
  extraRows : a.extraRows = (a.slots.length + w - 1) / w
  rows : a.rows = (h + (a.slots.length + w - 1) / w : Nat)
  /-- A further request that no row is left for fails and changes nothing, while a key that has a
  slot gets it again. -/
  refused : ∀ k span, k ∉ a.slots.keys → maxCoordinate < h + a.slots.length / w →
    ∃ d, a.request k span = (.error d, a) ∧ d.cause = .meaning .coordinateOutOfRange ∧ d.span = span
  again : ∀ k pos span, (k, pos) ∈ a.slots → a.request k span = (.ok pos, a)

/-- Over every run of requests a new allocator is a counter. -/
theorem requests_countsSlots {w h : Nat} (hw : 1 ≤ w) (hw' : w ≤ 256) (calls : List (κ × Span)) :
    CountsSlots w h calls (requests { width := w, height := h } calls).1
      (requests { width := w, height := h } calls).2 := by
  have hnew : Serves w h ([] : List κ).eraseDups { width := w, height := h } := serves_empty w h
  obtain ⟨ha, hlen, hanswers⟩ := hnew.requests hw hw' calls
  rw [List.nil_append] at ha hanswers
  refine ⟨hlen, hanswers, ha.slots_getElem? hw, ha.counted.slots_nodup, ?_,
    ha.counted.extraRows_eq_div hw, ?_, ?_, ?_⟩
  · rintro ⟨k, pos⟩ he
    have hrow := (ha.counted.bounds hw he).1
    simp only [isExtra, ha.counted.height_eq, decide_eq_true_eq]
    omega
  · rw [Allocator.rows, ha.counted.height_eq, ha.counted.extraRows_eq_div hw]
    rfl
  · intro k span hnew hrow
    apply request_refused hw ha.counted hnew
    have hfits := row_le_iff (h := h) hw (requests { width := w, height := h } calls).2.slots.length
    omega
  · intro k pos span hmem
    exact request_known (OrderedMap.get?_of_mem ha.counted.keys_nodup hmem) span

/-- The last row is filled, a third key is refused, and the first one keeps its slot. -/
theorem requests_countsSlots_last_row :
    CountsSlots 2 255 ([(7, {}), (8, {}), (9, {}), (7, {})] : List (Nat × Span))
        (requests { width := 2, height := 255 } [(7, {}), (8, {}), (9, {}), (7, {})]).1
        (requests { width := 2, height := 255 } [(7, {}), (8, {}), (9, {}), (7, {})]).2 ∧
      (requests ({ width := 2, height := 255 } : Allocator Nat)
        [(7, {}), (8, {}), (9, {}), (7, {})]).1.map Except.toOption =
          [some ⟨0, 255⟩, some ⟨1, 255⟩, none, some ⟨0, 255⟩] :=
  ⟨requests_countsSlots (by decide) (by decide) _, by decide⟩

end Keyplan.Firmware.Allocator
