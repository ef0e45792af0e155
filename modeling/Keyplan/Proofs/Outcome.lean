import Keyplan.Diagnostic

/-!
# Outcomes — taking computations that can fail apart

A computation that can fail succeeds exactly when each of its steps does. One computation tracks
another when both succeed or both fail, and what they give is related step by step. Two computations
that start from related values pair up when they fail alike and keep the relation. A computation
that checks a list complains about the first thing in it that is wrong. What holds of every failure
and of every success is carried from step to step. A computation decides a condition when it
succeeds exactly where the condition holds.
-/

namespace Keyplan.Outcome

variable {ε α β : Type}

/-! ## Successes -/

theorem bind_eq_ok_iff {x : Except ε α} {f : α → Except ε β} {b : β} :
    (x >>= f) = .ok b ↔ ∃ a, x = .ok a ∧ f a = .ok b := by
  constructor
  · intro h
    match x, h with
    | .ok a, h => exact ⟨a, rfl, h⟩
  · rintro ⟨a, rfl, h⟩
    exact h

theorem bind_eq_error_iff {x : Except ε α} {f : α → Except ε β} {e : ε} :
    (x >>= f) = .error e ↔ x = .error e ∨ ∃ a, x = .ok a ∧ f a = .error e := by
  constructor
  · intro h
    match x, h with
    | .ok a, h => exact .inr ⟨a, rfl, h⟩
    | .error _, h => exact .inl (congrArg Except.error (Except.error.inj h))
  · rintro (rfl | ⟨a, rfl, h⟩)
    · rfl
    · exact h

@[simp] theorem ok_bind (a : α) (f : α → Except ε β) : (Except.ok a >>= f) = f a := rfl

@[simp] theorem error_bind (e : ε) (f : α → Except ε β) : (Except.error e >>= f) = .error e := rfl

theorem pure_eq_ok_iff {a b : α} : (pure a : Except ε α) = .ok b ↔ a = b :=
  ⟨fun h => Except.ok.inj h, fun h => congrArg Except.ok h⟩

theorem map_eq_ok_iff {x : Except ε α} {f : α → β} {b : β} :
    x.map f = .ok b ↔ ∃ a, x = .ok a ∧ f a = b := by
  cases x <;> simp [Except.map]

theorem toOption_eq_some_iff {x : Except ε α} {a : α} : x.toOption = some a ↔ x = .ok a := by
  cases x <;> simp [Except.toOption]

theorem mapM_eq_ok_iff {f : α → Except ε β} {xs : List α} {ys : List β} :
    xs.mapM f = .ok ys ↔ xs.map f = ys.map .ok := by
  induction xs generalizing ys with
  | nil =>
    rw [List.mapM_nil, pure_eq_ok_iff, List.map_nil]
    cases ys <;> simp
  | cons x xs ih =>
    simp only [List.mapM_cons, bind_eq_ok_iff, pure_eq_ok_iff, ih]
    constructor
    · rintro ⟨y, hy, ys', hys, rfl⟩
      rw [List.map_cons, List.map_cons, hy, hys]
    · intro h
      cases ys with
      | nil => cases h
      | cons y ys =>
        obtain ⟨hy, hys⟩ := List.cons.inj h
        exact ⟨y, hy, ys, hys, rfl⟩

theorem mapM_getElem? {f : α → Except ε β} {xs : List α} {ys : List β} (h : xs.mapM f = .ok ys)
    {i : Nat} {x : α} (hx : xs[i]? = some x) : ∃ y, ys[i]? = some y ∧ f x = .ok y := by
  have hi := congrArg (·[i]?) (mapM_eq_ok_iff.mp h)
  simp only [List.getElem?_map, hx, Option.map_some] at hi
  obtain ⟨y, hy, hf⟩ := Option.map_eq_some_iff.mp hi.symm
  exact ⟨y, hy, hf.symm⟩

/-- What holds of each result and its argument holds of the lists. -/
theorem map_of_mapM {γ : Type} {f : α → Except ε β} {g : α → γ} {g' : β → γ} {xs : List α}
    {ys : List β} (h : xs.mapM f = .ok ys) (hg : ∀ x y, f x = .ok y → g x = g' y) :
    xs.map g = ys.map g' := by
  induction xs generalizing ys with
  | nil =>
    rw [List.mapM_nil, pure_eq_ok_iff] at h
    rw [← h]
    rfl
  | cons x xs ih =>
    simp only [List.mapM_cons, bind_eq_ok_iff, pure_eq_ok_iff] at h
    obtain ⟨y, hy, ys', hys, rfl⟩ := h
    rw [List.map_cons, List.map_cons, hg x y hy, ih hys]

theorem exists_of_mem_mapM {f : α → Except ε β} {xs : List α} {ys : List β}
    (h : xs.mapM f = .ok ys) {y : β} (hy : y ∈ ys) : ∃ x ∈ xs, f x = .ok y := by
  have hmem : Except.ok y ∈ xs.map f := by
    rw [mapM_eq_ok_iff.mp h]
    exact List.mem_map_of_mem hy
  exact List.mem_map.mp hmem

theorem length_of_mapM {f : α → Except ε β} {xs : List α} {ys : List β} (h : xs.mapM f = .ok ys) :
    ys.length = xs.length := by
  simpa using (congrArg List.length (mapM_eq_ok_iff.mp h)).symm

theorem mapM_succeeds_iff {f : α → Except ε β} {xs : List α} :
    (∃ ys, xs.mapM f = .ok ys) ↔ ∀ x ∈ xs, ∃ y, f x = .ok y := by
  induction xs with
  | nil => exact iff_of_true ⟨[], rfl⟩ nofun
  | cons x xs ih =>
    simp only [List.mapM_cons, bind_eq_ok_iff, pure_eq_ok_iff, List.forall_mem_cons, ← ih]
    constructor
    · rintro ⟨-, y, hy, ys, hys, -⟩
      exact ⟨⟨y, hy⟩, ys, hys⟩
    · rintro ⟨⟨y, hy⟩, ys, hys⟩
      exact ⟨y :: ys, y, hy, ys, hys, rfl⟩

/-- A function that succeeds wherever another one does, and in the same way, does so on lists. -/
theorem mapM_of_ok {f g : α → Except ε β} (hfg : ∀ x y, f x = .ok y → g x = .ok y) {xs : List α}
    {ys : List β} (h : xs.mapM f = .ok ys) : xs.mapM g = .ok ys := by
  induction xs generalizing ys with
  | nil => exact h
  | cons x xs ih =>
    rw [List.mapM_cons] at h ⊢
    obtain ⟨y, hy, h⟩ := bind_eq_ok_iff.mp h
    obtain ⟨ys', hys, h⟩ := bind_eq_ok_iff.mp h
    rw [hfg x y hy, ok_bind, ih hys]
    exact h

/-- A loop succeeds when each of its steps does, from what holds behind the steps before it. -/
theorem foldlM_total {f : β → α → Except ε β} {P : List α → β → Prop} {all : List α}
    (hstep : ∀ done x rest b, done ++ x :: rest = all → P done b →
      ∃ b', f b x = .ok b' ∧ P (done ++ [x]) b')
    (xs done : List α) (hall : done ++ xs = all) {b : β} (hb : P done b) :
    ∃ b', xs.foldlM f b = .ok b' ∧ P all b' := by
  induction xs generalizing done b with
  | nil =>
    rw [List.append_nil] at hall
    exact ⟨b, rfl, hall ▸ hb⟩
  | cons x xs ih =>
    obtain ⟨b₁, hx, hb₁⟩ := hstep done x xs b hall hb
    rw [List.append_cons] at hall
    obtain ⟨b', hxs, hb'⟩ := ih (done ++ [x]) hall hb₁
    refine ⟨b', ?_, hb'⟩
    rw [List.foldlM_cons, hx]
    exact hxs

/-- What holds behind a loop that succeeded, when each of its steps carries it on. -/
theorem foldlM_of_ok {f : β → α → Except ε β} {P : List α → β → Prop} {all : List α}
    (hstep : ∀ done x rest b b', done ++ x :: rest = all → P done b → f b x = .ok b' →
      P (done ++ [x]) b')
    (xs done : List α) (hall : done ++ xs = all) {b b' : β} (hb : P done b)
    (h : xs.foldlM f b = .ok b') : P all b' := by
  induction xs generalizing done b with
  | nil =>
    rw [List.append_nil] at hall
    rw [List.foldlM_nil, pure_eq_ok_iff] at h
    rwa [← hall, ← h]
  | cons x xs ih =>
    rw [List.foldlM_cons] at h
    obtain ⟨b₁, hx, h⟩ := bind_eq_ok_iff.mp h
    have hb₁ := hstep done x xs b b₁ hall hb hx
    rw [List.append_cons] at hall
    exact ih (done ++ [x]) hall hb₁ h

/-! ## Tracking -/

/-- The second outcome is the first one seen through `φ`; failures are related by `E`. -/
inductive Tracks (E : ε → ε → Prop) (φ : α → β) : Except ε α → Except ε β → Prop
  | ok (a : α) : Tracks E φ (.ok a) (.ok (φ a))
  | error {d e : ε} (h : E d e) : Tracks E φ (.error d) (.error e)

namespace Tracks

variable {γ δ : Type} {E : ε → ε → Prop} {φ : α → β} {ψ : γ → δ}

theorem pure {a : α} {b : β} (h : φ a = b) :
    Tracks E φ (Pure.pure a : Except ε α) (Pure.pure b : Except ε β) :=
  h ▸ .ok a

theorem bind {x : Except ε α} {y : Except ε β} {k : α → Except ε γ} {k' : β → Except ε δ}
    (hx : Tracks E φ x y) (hk : ∀ a, Tracks E ψ (k a) (k' (φ a))) :
    Tracks E ψ (x >>= k) (y >>= k') := by
  cases hx with
  | ok a => exact hk a
  | error h => exact .error h

theorem map {x y : Except ε α} (h : Tracks E id x y) (g : α → γ) :
    Tracks E id (x.map g) (y.map g) := by
  cases h with
  | ok a => exact .ok (g a)
  | error h => exact .error h

theorem mapM {k : α → Except ε γ} {k' : β → Except ε δ} (xs : List α)
    (hk : ∀ x ∈ xs, Tracks E ψ (k x) (k' (φ x))) :
    Tracks E (List.map ψ) (xs.mapM k) ((xs.map φ).mapM k') := by
  induction xs with
  | nil => exact .ok []
  | cons x xs ih =>
    rw [List.map_cons, List.mapM_cons, List.mapM_cons]
    refine (hk x List.mem_cons_self).bind fun y => ?_
    exact (ih fun z hz => hk z (List.mem_cons_of_mem _ hz)).bind fun ys => .ok _

theorem foldlM {k : γ → α → Except ε γ} {k' : δ → β → Except ε δ} (xs : List α)
    (hk : ∀ c x, Tracks E ψ (k c x) (k' (ψ c) (φ x))) (c : γ) :
    Tracks E ψ (xs.foldlM k c) ((xs.map φ).foldlM k' (ψ c)) := by
  induction xs generalizing c with
  | nil => exact .ok c
  | cons x xs ih =>
    rw [List.map_cons, List.foldlM_cons, List.foldlM_cons]
    exact (hk c x).bind ih

/-- A success is tracked by a success. -/
theorem of_ok {x : Except ε α} {y : Except ε β} (h : Tracks E φ x y) {a : α} (hx : x = .ok a) :
    y = .ok (φ a) := by
  subst hx
  cases h
  rfl

theorem ok_of {x : Except ε α} {y : Except ε β} (h : Tracks E φ x y) {b : β} (hy : y = .ok b) :
    ∃ a, x = .ok a ∧ φ a = b := by
  subst hy
  cases h
  exact ⟨_, rfl, rfl⟩

/-- An outcome whose failures are tracked through `g` is the other one, up to `g`. -/
theorem mapError_eq {g : ε → ε} {x y : Except ε α} (h : Tracks (fun d e => g d = e) id x y) :
    x.mapError g = y := by
  cases h with
  | ok a => rfl
  | error hd => exact congrArg Except.error hd

end Tracks

/-! ## Pairing -/

/-- Both computations succeed with results that `R` relates, or both fail in the same way. -/
inductive Pairs (R : α → β → Prop) : Except ε α → Except ε β → Prop
  | ok {a : α} {b : β} (h : R a b) : Pairs R (.ok a) (.ok b)
  | error (e : ε) : Pairs R (.error e) (.error e)

namespace Pairs

variable {γ δ : Type} {R : α → β → Prop} {S : γ → δ → Prop}

theorem refl (x : Except ε α) : Pairs Eq x x := by
  cases x with
  | ok a => exact .ok rfl
  | error e => exact .error e

theorem bind {x : Except ε α} {y : Except ε β} {k : α → Except ε γ} {k' : β → Except ε δ}
    (hx : Pairs R x y) (hk : ∀ a b, R a b → Pairs S (k a) (k' b)) :
    Pairs S (x >>= k) (y >>= k') := by
  cases hx with
  | ok h => exact hk _ _ h
  | error e => exact .error e

theorem foldlM {k : α → γ → Except ε α} {k' : β → γ → Except ε β}
    (hk : ∀ a b x, R a b → Pairs R (k a x) (k' b x)) (xs : List γ) {a : α} {b : β} (h : R a b) :
    Pairs R (xs.foldlM k a) (xs.foldlM k' b) := by
  induction xs generalizing a b with
  | nil => exact .ok h
  | cons x xs ih =>
    rw [List.foldlM_cons, List.foldlM_cons]
    exact (hk a b x h).bind fun a' b' h' => ih h'

/-- A check that both computations make first. -/
theorem checked {x : Except ε α} {y : Except ε β} (c : Prop) [Decidable c] (e : ε)
    (h : Pairs R x y) : Pairs R (if c then .error e else x) (if c then .error e else y) := by
  by_cases hc : c
  · rw [if_pos hc, if_pos hc]
    exact .error e
  · rw [if_neg hc, if_neg hc]
    exact h

/-- Steps that end alike up to `g` behind related values. -/
theorem mapError_bind {g : ε → ε} {x : Except ε α} {y : Except ε β} {k : α → Except ε γ}
    {k' : β → Except ε γ} (hx : Pairs R x y)
    (hk : ∀ a b, R a b → (k a).mapError g = (k' b).mapError g) :
    (x >>= k).mapError g = (y >>= k').mapError g := by
  cases hx with
  | ok h => exact hk _ _ h
  | error e => rfl

end Pairs

/-! ## Checking -/

/-- What a failure is about and where; a success has no complaint. -/
def complaint? : Except Diagnostic α → Option (Cause × Span)
  | .ok _ => none
  | .error d => some (d.cause, d.span)

/-- The outcome of looking at `cs` in this order: a complaint about the first of them that `g`
finds fault with. -/
def Checks {γ : Type} (g : γ → Option (Cause × Span)) (cs : List γ)
    (x : Except Diagnostic α) : Prop :=
  complaint? x = cs.findSome? g

namespace Checks

variable {γ : Type} {g : γ → Option (Cause × Span)} {cs cs' : List γ}

theorem ok (a : α) : Checks g [] (.ok a) := rfl

theorem one {c : γ} {x : Except Diagnostic α} (h : complaint? x = g c) : Checks g [c] x := by
  rw [Checks, h, List.findSome?_singleton]

/-- What the second step looks at comes behind what the first one looked at. -/
theorem bind {x : Except Diagnostic α} {f : α → Except Diagnostic β} (hx : Checks g cs x)
    (hf : ∀ a, x = .ok a → Checks g cs' (f a)) : Checks g (cs ++ cs') (x >>= f) := by
  unfold Checks at hx hf ⊢
  rw [List.findSome?_append, ← hx]
  cases x with
  | ok a => exact hf a rfl
  | error d => rfl

theorem map {x : Except Diagnostic α} (hx : Checks g cs x) (f : α → β) :
    Checks g cs (do return f (← x)) := by
  have h := hx.bind (f := fun a => pure (f a)) fun a _ => ok (f a)
  rwa [List.append_nil] at h

theorem mapM {part : α → List γ} {f : α → Except Diagnostic β}
    (hf : ∀ x, Checks g (part x) (f x)) (xs : List α) :
    Checks g (xs.flatMap part) (xs.mapM f) := by
  induction xs with
  | nil => exact ok []
  | cons x xs ih =>
    rw [List.mapM_cons, List.flatMap_cons]
    apply (hf x).bind
    intro y _
    exact ih.map (y :: ·)

theorem foldlM {part : α → List γ} {f : β → α → Except Diagnostic β}
    (hf : ∀ b x, Checks g (part x) (f b x)) (xs : List α) (b : β) :
    Checks g (xs.flatMap part) (xs.foldlM f b) := by
  induction xs generalizing b with
  | nil => exact ok b
  | cons x xs ih =>
    rw [List.foldlM_cons, List.flatMap_cons]
    apply (hf b x).bind
    intro b' _
    exact ih b'

theorem fails_iff {x : Except Diagnostic α} (hx : Checks g cs x) :
    (∃ d, x = .error d) ↔ ∃ c ∈ cs, (g c).isSome := by
  have hsome : (∃ d, x = .error d) ↔ (complaint? x).isSome := by
    cases x <;> simp [complaint?]
  rw [hsome, hx, List.isSome_findSome?, List.any_eq_true]

theorem succeeds_iff {x : Except Diagnostic α} (hx : Checks g cs x) :
    (∃ a, x = .ok a) ↔ ∀ c ∈ cs, g c = none := by
  have hnone : (∃ a, x = .ok a) ↔ complaint? x = none := by
    cases x <;> simp [complaint?]
  rw [hnone, hx, List.findSome?_eq_none_iff]

theorem first {x : Except Diagnostic α} (hx : Checks g cs x) {d : Diagnostic}
    (hd : x = .error d) :
    ∃ before c after, cs = before ++ c :: after ∧ g c = some (d.cause, d.span) ∧
      ∀ c' ∈ before, g c' = none := by
  apply List.findSome?_eq_some_iff.mp
  rw [← hx, hd]
  rfl

end Checks

/-! ## Meeting -/

/-- `P` holds of the failure, or `Q` of the success. -/
def Meets (P : ε → Prop) (Q : α → Prop) : Except ε α → Prop
  | .ok a => Q a
  | .error e => P e

namespace Meets

variable {P : ε → Prop} {Q : α → Prop} {R : β → Prop}

theorem bind {x : Except ε α} {f : α → Except ε β} (hx : Meets P Q x)
    (hf : ∀ a, Q a → Meets P R (f a)) : Meets P R (x >>= f) := by
  cases x with
  | ok a => exact hf a hx
  | error e => exact hx

theorem mono {P' : ε → Prop} {Q' : α → Prop} {x : Except ε α} (hx : Meets P Q x)
    (hP : ∀ e, P e → P' e) (hQ : ∀ a, Q a → Q' a) : Meets P' Q' x := by
  cases x with
  | ok a => exact hQ a hx
  | error e => exact hP e hx

theorem of_error {x : Except ε α} (h : ∀ e, x = .error e → P e) :
    Meets P (fun _ => True) x := by
  cases x with
  | ok a => trivial
  | error e => exact h e rfl

theorem map {x : Except ε α} (hx : Meets P Q x) (f : α → β) (hf : ∀ a, Q a → R (f a)) :
    Meets P R (x.map f) := by
  cases x with
  | ok a => exact hf a hx
  | error e => exact hx

theorem mapM {f : α → Except ε β} {xs : List α} (h : ∀ x ∈ xs, Meets P R (f x)) :
    Meets P (fun ys => ∀ y ∈ ys, R y) (xs.mapM f) := by
  induction xs with
  | nil =>
    intro y hy
    cases hy
  | cons x xs ih =>
    rw [List.mapM_cons]
    refine (h x List.mem_cons_self).bind fun y hy => ?_
    refine (ih fun z hz => h z (List.mem_cons_of_mem x hz)).bind fun ys hys => ?_
    exact List.forall_mem_cons.mpr ⟨hy, hys⟩

theorem foldlM {f : β → α → Except ε β} {xs : List α}
    (h : ∀ x ∈ xs, ∀ b, R b → Meets P R (f b x)) {b : β} (hb : R b) :
    Meets P R (xs.foldlM f b) := by
  induction xs generalizing b with
  | nil => exact hb
  | cons x xs ih =>
    rw [List.foldlM_cons]
    refine (h x List.mem_cons_self b hb).bind fun b' hb' => ?_
    exact ih (fun y hy => h y (List.mem_cons_of_mem x hy)) hb'

end Meets

/-! ## Deciding -/

/-- The computation succeeds exactly when `P` holds, and then `Q` holds of what it gives. -/
def Decides (P : Prop) (Q : α → Prop) : Except ε α → Prop
  | .ok a => P ∧ Q a
  | .error _ => ¬ P

namespace Decides

variable {P P' : Prop} {Q : α → Prop} {R : β → Prop}

/-- A first step that decides part of a condition, before steps that decide the whole. -/
theorem bind {x : Except ε α} {f : α → Except ε β} (hx : Decides P Q x) (hpart : P' → P)
    (hf : ∀ a, P → Q a → Decides P' R (f a)) : Decides P' R (x >>= f) := by
  cases x with
  | ok a => exact hf a hx.1 hx.2
  | error e => exact fun hP' => hx (hpart hP')

theorem congr {Q' : α → Prop} {x : Except ε α} (hx : Decides P Q x) (hP : P ↔ P')
    (hQ : ∀ a, P → Q a → Q' a) : Decides P' Q' x := by
  cases x with
  | ok a => exact ⟨hP.mp hx.1, hQ a hx.1 hx.2⟩
  | error e => exact fun hP' => hx (hP.mpr hP')

theorem of_ok {x : Except ε α} (hx : Decides P Q x) {a : α} (ha : x = .ok a) : P ∧ Q a := by
  subst ha
  exact hx

theorem succeeds_iff {x : Except ε α} (hx : Decides P Q x) : (∃ a, x = .ok a) ↔ P := by
  cases x with
  | ok a => exact iff_of_true ⟨a, rfl⟩ hx.1
  | error e => exact iff_of_false nofun hx

theorem fails_iff {x : Except ε α} (hx : Decides P Q x) : (∃ e, x = .error e) ↔ ¬ P := by
  cases x with
  | ok a => exact iff_of_false nofun fun h => h hx.1
  | error e => exact iff_of_true ⟨e, rfl⟩ hx

/-- A loop decides a condition on every element when each of its steps decides it of its own. -/
theorem foldlM {f : β → α → Except ε β} {P : α → Prop} {Q : List α → β → Prop}
    (hstep : ∀ done x b, Q done b → Decides (P x) (Q (done ++ [x])) (f b x))
    (xs done : List α) {b : β} (hb : Q done b) :
    Decides (∀ x ∈ xs, P x) (Q (done ++ xs)) (xs.foldlM f b) := by
  induction xs generalizing done b with
  | nil =>
    rw [List.append_nil]
    exact ⟨nofun, hb⟩
  | cons x xs ih =>
    rw [List.foldlM_cons]
    apply (hstep done x b hb).bind
    · intro hall
      exact hall x List.mem_cons_self
    · intro b' hx hb'
      have hrest := ih (done ++ [x]) hb'
      rw [List.append_assoc] at hrest
      apply hrest.congr
      · rw [List.forall_mem_cons, and_iff_right hx]
      · intro b'' _ hb''
        exact hb''

end Decides

end Keyplan.Outcome
