import Keyplan.OrderedMap

/-!
# Ordered maps — lookup when no key is set twice, runs of settings, and changed values

Behind a run of settings, the keys stand in the order they were first set, and each has the value it
was set to last. The same holds of the part of a map that is addressed to someone.
-/

namespace Keyplan.OrderedMap

variable {κ α : Type} [DecidableEq κ]

theorem mem_of_get? {m : OrderedMap κ α} {k : κ} {a : α} (h : get? m k = some a) : (k, a) ∈ m := by
  obtain ⟨entry, hfind, rfl⟩ := Option.map_eq_some_iff.mp h
  have hk := List.find?_some hfind
  obtain rfl : entry.1 = k := of_decide_eq_true hk
  exact List.mem_of_find?_eq_some hfind

theorem get?_eq_none_iff {m : OrderedMap κ α} {k : κ} : get? m k = none ↔ k ∉ keys m := by
  simp only [get?, Option.map_eq_none_iff, List.find?_eq_none, decide_eq_true_eq, keys,
    List.mem_map, not_exists, not_and]

omit [DecidableEq κ] in
theorem mem_keys_of_mem {m : OrderedMap κ α} {k : κ} {a : α} (h : (k, a) ∈ m) : k ∈ keys m :=
  List.mem_map.mpr ⟨(k, a), h, rfl⟩

theorem get?_of_mem {m : OrderedMap κ α} (hm : (keys m).Nodup) {k : κ} {a : α} (h : (k, a) ∈ m) :
    get? m k = some a := by
  induction m with
  | nil => cases h
  | cons entry rest ih =>
    obtain ⟨k', a'⟩ := entry
    obtain ⟨hfresh, hrest⟩ := List.nodup_cons.mp hm
    rw [get?_cons]
    rcases List.mem_cons.mp h with e | h
    · obtain ⟨rfl, rfl⟩ := Prod.mk.inj e
      rw [if_pos rfl]
    · have hne : k' ≠ k := fun e => hfresh (e ▸ mem_keys_of_mem h)
      rw [if_neg hne]
      exact ih hrest h

theorem filter_key_eq {m : OrderedMap κ α} (hm : (keys m).Nodup) {k : κ} {a : α}
    (h : (k, a) ∈ m) : (m.filter fun e => decide (e.1 = k)) = [(k, a)] := by
  induction m with
  | nil => cases h
  | cons entry rest ih =>
    obtain ⟨k', a'⟩ := entry
    obtain ⟨hfresh, hrest⟩ := List.nodup_cons.mp hm
    rcases List.mem_cons.mp h with e | h
    · obtain ⟨rfl, rfl⟩ := Prod.mk.inj e
      have hnone : (rest.filter fun e => decide (e.1 = k)) = [] := by
        refine List.filter_eq_nil_iff.mpr ?_
        rintro ⟨k', a'⟩ he heq
        obtain rfl : k' = k := of_decide_eq_true heq
        exact hfresh (mem_keys_of_mem he)
      rw [List.filter_cons, if_pos (decide_eq_true rfl), hnone]
    · have hne : k' ≠ k := fun e => hfresh (e ▸ mem_keys_of_mem h)
      rw [List.filter_cons, if_neg (by simpa using hne)]
      exact ih hrest h

theorem forall_insert {m : OrderedMap κ α} {P : κ × α → Prop} (h : ∀ e ∈ m, P e) {k : κ} {a : α}
    (ha : P (k, a)) : ∀ e ∈ insert k a m, P e := by
  induction m with
  | nil => exact List.forall_mem_singleton.mpr ha
  | cons entry rest ih =>
    obtain ⟨he, hrest⟩ := List.forall_mem_cons.mp h
    unfold insert
    split
    · exact List.forall_mem_cons.mpr ⟨ha, hrest⟩
    · exact List.forall_mem_cons.mpr ⟨he, ih hrest⟩

theorem insert_of_not_mem {m : OrderedMap κ α} {k : κ} (a : α) (h : k ∉ keys m) :
    insert k a m = m ++ [(k, a)] := by
  induction m with
  | nil => rfl
  | cons entry rest ih =>
    obtain ⟨k', a'⟩ := entry
    have hne : k' ≠ k := fun e => h (e ▸ List.mem_cons_self)
    rw [insert, if_neg hne, ih fun hmem => h (List.mem_cons_of_mem _ hmem)]
    rfl

theorem nodup_insert {m : OrderedMap κ α} {k : κ} {a : α} (h : (keys m).Nodup) :
    (keys (insert k a m)).Nodup := by
  rw [keys_insert]
  by_cases hk : k ∈ keys m
  · rwa [if_pos hk]
  · rw [if_neg hk, List.nodup_append]
    refine ⟨h, by simp, fun k₁ hk₁ k₂ hk₂ e => ?_⟩
    rw [List.mem_singleton.mp hk₂] at e
    exact hk (e ▸ hk₁)

/-- Entries that are left out because of their keys do not matter to a key that stays. -/
theorem get?_filter {m : OrderedMap κ α} {p : κ → Bool} {k : κ} (hk : p k) :
    get? (m.filter fun e => p e.1) k = get? m k := by
  induction m with
  | nil => rfl
  | cons entry rest ih =>
    obtain ⟨k', a'⟩ := entry
    rw [get?_cons]
    by_cases hp : p k'
    · rw [List.filter_cons, if_pos hp, get?_cons, ih]
    · have hne : k' ≠ k := fun e => hp (e ▸ hk)
      rw [List.filter_cons, if_neg hp, if_neg hne]
      exact ih

theorem get?_append_of_some {m m' : OrderedMap κ α} {k : κ} {a : α} (h : get? m k = some a) :
    get? (m ++ m') k = some a := by
  obtain ⟨entry, hfind, rfl⟩ := Option.map_eq_some_iff.mp h
  unfold get?
  rw [List.find?_append, hfind]
  rfl

/-- Behind many settings, a key has the value it was set to last. -/
theorem get?_foldl_insert {β : Type} (key : β → κ) (value : β → α) (xs : List β)
    (m : OrderedMap κ α) (k : κ) :
    get? (xs.foldl (fun m x => insert (key x) (value x) m) m) k =
      ((xs.filter fun x => key x = k).getLast?.map value).or (get? m k) := by
  induction xs generalizing m with
  | nil => rfl
  | cons x xs ih =>
    rw [List.foldl_cons, ih, get?_insert, List.filter_cons]
    by_cases hx : key x = k
    · rw [if_pos hx, if_pos (decide_eq_true hx), List.getLast?_cons]
      cases (xs.filter fun x => key x = k).getLast? <;> rfl
    · rw [if_neg hx, if_neg (by simpa using hx)]

/-- Behind many settings of an empty map, the keys stand in the order they were first set. -/
theorem keys_foldl_insert {β : Type} (key : β → κ) (value : β → α) (xs : List β) :
    keys (xs.foldl (fun m x => insert (key x) (value x) m) []) = (xs.map key).eraseDups := by
  -- The keys that a map starts with stand in front of those that are set.
  suffices h : ∀ m : OrderedMap κ α, (keys m).eraseDups = keys m →
      keys (xs.foldl (fun m x => insert (key x) (value x) m) m) =
        (keys m ++ xs.map key).eraseDups from h [] rfl
  induction xs with
  | nil =>
    intro m hm
    rw [List.foldl_nil, List.map_nil, List.append_nil, hm]
  | cons x xs ih =>
    intro m hm
    have hkeys : (keys (insert (key x) (value x) m)).eraseDups =
        keys (insert (key x) (value x) m) := by
      rw [keys_insert]
      split
      · exact hm
      · rename_i hx
        simp [List.eraseDups_append, hm, List.removeAll, hx, List.eraseDups_cons]
    rw [List.foldl_cons, ih _ hkeys, keys_insert, List.map_cons]
    split
    · rename_i hx
      simp [List.eraseDups_append, List.removeAll, hx]
    · rw [List.append_assoc, List.singleton_append]

theorem nodup_foldl_insert {β : Type} (key : β → κ) (value : β → α) (xs : List β)
    {m : OrderedMap κ α} (hm : (keys m).Nodup) :
    (keys (xs.foldl (fun m x => insert (key x) (value x) m) m)).Nodup := by
  induction xs generalizing m with
  | nil => exact hm
  | cons x xs ih => exact ih (nodup_insert hm)

theorem nodup_eraseDups (ks : List κ) : ks.eraseDups.Nodup := by
  have h := nodup_foldl_insert id (fun _ => ()) ks (m := []) List.nodup_nil
  rwa [keys_foldl_insert, List.map_id] at h

/-! ## Addressed keys -/

section Addressed

variable {ι : Type} [DecidableEq ι]

/-- The part of a map whose keys are addressed to `b`. -/
def addressed (b : ι) (m : OrderedMap (ι × κ) α) : OrderedMap κ α :=
  (m.filter fun e => e.1.1 = b).map fun e => (e.1.2, e.2)

omit [DecidableEq κ] in
theorem addressed_cons (b b' : ι) (k : κ) (a : α) (m : OrderedMap (ι × κ) α) :
    addressed b (((b', k), a) :: m) =
      if b' = b then (k, a) :: addressed b m else addressed b m := by
  unfold addressed
  by_cases hb : b' = b
  · rw [if_pos hb, List.filter_cons_of_pos (by simpa using hb), List.map_cons]
  · rw [if_neg hb, List.filter_cons_of_neg (by simpa using hb)]

/-- What is addressed to `b` is a map of its own. -/
theorem get?_addressed (b : ι) (k : κ) (m : OrderedMap (ι × κ) α) :
    get? (addressed b m) k = get? m (b, k) := by
  induction m with
  | nil => rfl
  | cons entry rest ih =>
    obtain ⟨⟨b', k'⟩, a⟩ := entry
    rw [addressed_cons, get?_cons, ← ih]
    by_cases hb : b' = b
    · rw [if_pos hb, get?_cons]
      simp only [Prod.mk.injEq, hb, true_and]
    · have hne : (b', k') ≠ (b, k) := fun heq => hb (Prod.mk.inj heq).1
      rw [if_neg hb, if_neg hne]

theorem addressed_insert (b b' : ι) (k : κ) (a : α) (m : OrderedMap (ι × κ) α) :
    addressed b (insert (b', k) a m) =
      if b' = b then insert k a (addressed b m) else addressed b m := by
  induction m with
  | nil => exact addressed_cons b b' k a []
  | cons entry rest ih =>
    obtain ⟨⟨b₁, k₁⟩, a₁⟩ := entry
    rw [insert, addressed_cons]
    by_cases hsame : (b₁, k₁) = (b', k)
    · obtain ⟨rfl, rfl⟩ := Prod.mk.inj hsame
      rw [if_pos rfl, addressed_cons]
      by_cases hb : b₁ = b
      · rw [if_pos hb, if_pos hb, if_pos hb, insert, if_pos rfl]
      · rw [if_neg hb, if_neg hb, if_neg hb]
    · rw [if_neg hsame, addressed_cons, ih]
      by_cases hb₁ : b₁ = b
      · by_cases hb : b' = b
        · -- Both are addressed to `b`, so their keys differ.
          have hne : k₁ ≠ k := fun e => hsame (by rw [hb₁, hb, e])
          rw [if_pos hb₁, if_pos hb, if_pos hb, if_pos hb₁, insert, if_neg hne]
        · rw [if_pos hb₁, if_neg hb, if_neg hb, if_pos hb₁]
      · rw [if_neg hb₁, if_neg hb₁]

/-- Behind many settings, the part for `b` is what the settings addressed to `b` make of it. -/
theorem addressed_foldl_insert {β : Type} (address : β → ι) (key : β → κ) (value : β → α)
    (xs : List β) (m : OrderedMap (ι × κ) α) (b : ι) :
    addressed b (xs.foldl (fun m x => insert (address x, key x) (value x) m) m) =
      (xs.filter fun x => address x = b).foldl (fun m x => insert (key x) (value x) m)
        (addressed b m) := by
  induction xs generalizing m with
  | nil => rfl
  | cons x xs ih =>
    rw [List.foldl_cons, ih, addressed_insert]
    by_cases hb : address x = b
    · rw [if_pos hb, List.filter_cons_of_pos (by simpa using hb), List.foldl_cons]
    · rw [if_neg hb, List.filter_cons_of_neg (by simpa using hb)]

end Addressed

/-! ## Changed values -/

def mapValues {β : Type} (g : α → β) (m : OrderedMap κ α) : OrderedMap κ β :=
  m.map fun e => (e.1, g e.2)

theorem mapValues_insert {β : Type} (g : α → β) (k : κ) (a : α) (m : OrderedMap κ α) :
    mapValues g (insert k a m) = insert k (g a) (mapValues g m) := by
  induction m with
  | nil => rfl
  | cons entry rest ih =>
    obtain ⟨k', a'⟩ := entry
    show mapValues g (if k' = k then _ else _) = if k' = k then _ else _
    split
    · rfl
    · exact congrArg ((k', g a') :: ·) ih

theorem get?_mapValues {β : Type} (g : α → β) (k : κ) (m : OrderedMap κ α) :
    get? (mapValues g m) k = (get? m k).map g := by
  induction m with
  | nil => rfl
  | cons entry rest ih =>
    obtain ⟨k', a'⟩ := entry
    show get? ((k', g a') :: mapValues g rest) k = _
    rw [get?_cons, get?_cons, ih]
    split <;> rfl

end Keyplan.OrderedMap
