/-!
Maps that remember the order in which their keys were first set. Setting a key again replaces its
value and keeps its place.
-/

namespace Keyplan

/-- Keys with their values, in the order the keys were first set. -/
abbrev OrderedMap (κ α : Type) := List (κ × α)

namespace OrderedMap

variable {κ α : Type} [DecidableEq κ]

def insert (k : κ) (a : α) : OrderedMap κ α → OrderedMap κ α
  | [] => [(k, a)]
  | (k', a') :: rest => if k' = k then (k, a) :: rest else (k', a') :: insert k a rest

def get? (m : OrderedMap κ α) (k : κ) : Option α :=
  (m.find? fun entry => decide (entry.1 = k)).map (·.2)

/-- The keys in the order they were first set. -/
def keys (m : OrderedMap κ α) : List κ :=
  m.map (·.1)

/-! ## What setting a key does -/

theorem get?_cons (k k' : κ) (a : α) (m : OrderedMap κ α) :
    get? ((k', a) :: m) k = if k' = k then some a else get? m k := by
  unfold get?
  by_cases h : k' = k
  · simp [h]
  · simp [h]

/-- A key has the value it was set to last; no other key is touched. -/
theorem get?_insert (k k' : κ) (a : α) (m : OrderedMap κ α) :
    get? (insert k a m) k' = if k = k' then some a else get? m k' := by
  induction m with
  | nil => rw [insert, get?_cons]
  | cons entry rest ih =>
    obtain ⟨k₁, a₁⟩ := entry
    rw [insert]
    by_cases h : k₁ = k
    · subst h
      rw [if_pos rfl, get?_cons, get?_cons]
      split <;> rfl
    · rw [if_neg h, get?_cons, get?_cons, ih]
      by_cases h' : k₁ = k'
      · have hne : k ≠ k' := fun e => h (h'.trans e.symm)
        rw [if_pos h', if_pos h', if_neg hne]
      · rw [if_neg h', if_neg h']

/-- A new key is put behind the others, and a key that was set before keeps its place. -/
theorem keys_insert (k : κ) (a : α) (m : OrderedMap κ α) :
    keys (insert k a m) = if k ∈ keys m then keys m else keys m ++ [k] := by
  induction m with
  | nil => rfl
  | cons entry rest ih =>
    obtain ⟨k₁, a₁⟩ := entry
    rw [insert]
    by_cases h : k₁ = k
    · subst h
      have hmem : k₁ ∈ keys ((k₁, a₁) :: rest) := List.mem_cons_self
      rw [if_pos rfl, if_pos hmem]
      rfl
    · have hk : k ∈ keys ((k₁, a₁) :: rest) ↔ k ∈ keys rest := by
        unfold keys
        rw [List.map_cons, List.mem_cons]
        exact or_iff_right (fun e => h e.symm)
      rw [if_neg h]
      show k₁ :: keys (insert k a rest) = _
      rw [ih]
      by_cases hm : k ∈ keys rest
      · rw [if_pos hm, if_pos (hk.mpr hm)]
        rfl
      · rw [if_neg hm, if_neg (fun e => hm (hk.mp e))]
        rfl

end OrderedMap

end Keyplan
