import Keyplan.Proofs.Guarded.Tokens

/-!
# Guarded parsing — reading a description never misses

Each guarded reader reads what the plain reader of the same name reads: it gives the same result or
fails in the same way, and it is left with the same tokens. No loop goes round more often than there
are tokens, since every round of it takes one.
-/

namespace Keyplan.Guarded

open Keyplan.Parser

variable {α β : Type} {stop : Position} {ts : List Token} {r : Reader}

/-- The reader has read the same, and it is left with the same tokens. -/
def Leaves (stop : Position) (y : α × Rest ts) (a : α) (r : Reader) : Prop :=
  a = y.1 ∧ Holds stop y.2.1 r

/-- The reader has read a part of the same, and the token it took last stands at a known place. -/
def Closes (stop : Position) (part : β → α) (place : β → Span) (y : β × Rest ts) (a : α)
    (r : Reader) : Prop :=
  a = part y.1 ∧ Holds stop y.2.1 r ∧ ∃ t, r.last = some t ∧ t.span = place y.1

/-! ## Blocks in general -/

theorem symbol?_place {s : Symbol} {t : Token} {span : Span} (h : symbol? s t = some span) :
    t.span = span :=
  (symbol?_eq_some_iff.mp h).2.symm

theorem identifier?_place {t : Token} {found : String × Span} (h : identifier? t = some found) :
    t.span = found.2 :=
  (identifier?_eq_some_iff.mp h).2.symm

theorem integer?_place {t : Token} {found : Nat × Span} (h : integer? t = some found) :
    t.span = found.2 :=
  (integer?_eq_some_iff.mp h).2.symm

theorem string?_place {t : Token} {found : String × Span} (h : string? t = some found) :
    t.span = found.2 :=
  (string?_eq_some_iff.mp h).2.symm

theorem expect_reads (h : Holds stop ts r) {want : Token → Option α} {place : α → Span}
    (hend : want (Token.endOfFile stop) = none)
    (hplace : ∀ {t a}, want t = some a → t.span = place a) (fault : SyntaxFault)
    (labels : List Label := []) :
    Reads (Closes stop id place) (expect want fault labels r)
      (Parser.expect stop want fault ts labels) := by
  refine (h.accept_reads hend).bind fun _ _ r' _ hr' => ?_
  cases hr' with
  | taken hr' hlast hwant => exact .ok ⟨rfl, hr', _, hlast, hplace hwant⟩
  | left hr' _ =>
    refine (hr'.peek_reads (Nat.zero_le _)).bind fun t a r'' _ ha => ?_
    obtain ⟨rfl, -⟩ := ha
    exact .error _

theorem openBlock_reads (h : Holds stop ts r) (keyword : Span) :
    Reads (Closes stop id id) (openBlock keyword r) (Parser.openBlock stop keyword ts) :=
  expect_reads h rfl symbol?_place _ _

theorem value_reads (h : Holds stop ts r) :
    Reads (Closes stop id (·.2)) (value r) (Parser.value stop ts) := by
  unfold value Parser.value
  refine (expect_reads h rfl symbol?_place _).bind fun y _ r' _ hr' => ?_
  obtain ⟨-, hr', -⟩ := hr'
  exact (expect_reads hr' rfl string?_place _).bind_ok fun b a r hr => ⟨_, rfl, hr⟩

/-- A missing semicolon is missed behind the token that was taken last. -/
theorem semicolon_reads (h : Holds stop ts r) {t : Token} (hlast : r.last = some t) :
    Reads (Closes stop id id) (semicolon r) (Parser.semicolon t.span ts) := by
  unfold semicolon Parser.semicolon
  refine (h.accept_reads rfl).bind fun _ _ r' _ hr' => ?_
  cases hr' with
  | taken hr' hlast' hwant => exact .ok ⟨rfl, hr', _, hlast', symbol?_place hwant⟩
  | left _ hlast' =>
    dsimp only
    rw [read_eq (lastToken_eq (hlast'.trans hlast))]
    exact .error _

theorem bracketed_reads (h : Holds stop ts r) {want : Token → Option (α × Span)}
    (hend : want (Token.endOfFile stop) = none)
    (hplace : ∀ {t found}, want t = some found → t.span = found.2) (fault : SyntaxFault) :
    Reads (Closes stop id (·.2)) (bracketed want fault r)
      (Parser.bracketed stop want fault ts) := by
  unfold bracketed Parser.bracketed
  refine (expect_reads h hend hplace _).bind fun y _ r₁ _ hr₁ => ?_
  obtain ⟨rfl, hr₁, -⟩ := hr₁
  refine (expect_reads hr₁ rfl symbol?_place _).bind fun y' _ r₂ _ hr₂ => ?_
  obtain ⟨rfl, hr₂, hlast⟩ := hr₂
  exact .ok ⟨rfl, hr₂, hlast⟩

/-- Every round takes a part of the block, which is at least one token. -/
theorem body_reads {part : Reading α} {part' : (ts : List Token) → Parser.Outcome α ts}
    (hpart : ∀ {ts r}, Holds stop ts r → Reads (Leaves stop) (part r) (part' ts))
    (keyword : Span) {fuel : Nat} (h : Holds stop ts r) (hfuel : ts.length < fuel) :
    Reads (Closes stop id (·.2)) (body keyword part fuel r)
      (Parser.body stop keyword part' ts) := by
  -- There are more rounds left than tokens, and a part takes one token or more.
  induction fuel generalizing ts r with
  | zero => omega
  | succ fuel ih =>
    rw [body, Parser.body]
    refine (h.accept_reads rfl).bind fun _ _ r₁ _ hr₁ => ?_
    cases hr₁ with
    | taken hr₁ hlast hwant => exact .ok ⟨rfl, hr₁, _, hlast, symbol?_place hwant⟩
    | left hr₁ _ =>
      refine (hr₁.peek_reads (Nat.zero_le _)).bind fun _ t r₂ _ hr₂ => ?_
      obtain ⟨rfl, hr₂, -⟩ := hr₂
      by_cases hend : t.kind = .endOfFile
      · simp only [if_pos hend]
        exact .error _
      · simp only [if_neg hend]
        refine (hpart hr₂).bind fun y _ r₃ _ hr₃ => ?_
        obtain ⟨rfl, hr₃⟩ := hr₃
        -- What a part leaves is shorter: `Rest` says so.
        have hlt := y.2.2
        refine (ih hr₃ (by omega)).bind fun y' _ r₄ _ hr₄ => ?_
        obtain ⟨rfl, hr₄, hlast⟩ := hr₄
        exact .ok ⟨rfl, hr₄, hlast⟩

theorem looping_body_reads {part : Reading α} {part' : (ts : List Token) → Parser.Outcome α ts}
    (hpart : ∀ {ts r}, Holds stop ts r → Reads (Leaves stop) (part r) (part' ts))
    (keyword : Span) (h : Holds stop ts r) :
    Reads (Closes stop id (·.2)) (looping (body keyword part) r)
      (Parser.body stop keyword part' ts) :=
  body_reads hpart keyword h h.length_lt_rounds

/-! ## Rows -/

section

variable {spanOf : α → Span} {items : List α} {t : Token}

/-- A row with items ends at its semicolon, and it starts at its first item. -/
theorem rowSpan_follows :
    Follows (fun semi span => semi = t.span ∧
        span = ((items.head?.map spanOf).getD {}).join semi)
      (rowSpan spanOf items t) (rowEnd (items.getLast?.map spanOf) t) := by
  cases items with
  | nil => exact .error _
  | cons i items =>
    have hend : rowEnd ((i :: items).getLast?.map spanOf) t = .ok t.span := by
      simp [rowEnd]
    rw [hend]
    exact .ok ⟨rfl, rfl⟩

theorem cutShort_eq (fault : SyntaxFault) :
    (cutShort spanOf fault items t : Guarded β) =
      throw (unfinishedRow fault (items.getLast?.map spanOf) t) := by
  unfold cutShort
  cases hlast : items.getLast? with
  | none =>
    rw [List.getLast?_eq_none_iff.mp hlast]
    rfl
  | some i =>
    have hlen : items.length ≠ 0 := by
      intro hnil
      rw [List.length_eq_zero_iff.mp hnil] at hlast
      cases hlast
    -- The last item is there because the row is not empty.
    rw [if_neg hlen, item_last hlast]
    rfl

end

def layoutRowOf (items : List LayoutItem) (semi : Span) : LayoutRow where
  items := items
  semicolon := semi
  span := ((items.head?.map LayoutItem.span).getD {}).join semi

/-- Every round takes an item of the row, which is at least one token. -/
theorem layoutItems_reads (items : List LayoutItem) {fuel : Nat} (h : Holds stop ts r)
    (hfuel : ts.length < fuel) :
    Reads (fun y row r' => row = layoutRowOf (items ++ y.1.1) y.1.2 ∧ Holds stop y.2.1 r')
      (layoutItems items fuel r)
      (Parser.layoutItems stop (items.getLast?.map LayoutItem.span) ts) := by
  induction fuel generalizing items ts r with
  | zero => omega
  | succ fuel ih =>
    rw [layoutItems]
    cases ts with
    | nil =>
      rw [Parser.layoutItems]
      refine (h.peek_reads (Nat.zero_le _)).bind (g := fun _ => .error _) fun t _ r₁ ht hr₁ => ?_
      obtain ⟨rfl, -⟩ := hr₁
      obtain rfl := Except.ok.inj ht
      show Reads _ ((liftM (cutShort LayoutItem.span .invalidLayoutItem items _) : Reading _) r₁) _
      rw [cutShort_eq]
      exact .error _
    | cons t rest =>
      rw [Parser.layoutItems]
      refine (h.peek_reads (Nat.zero_le _)).bind fun _ t r₁ ht hr₁ => ?_
      obtain ⟨rfl, hr₁, -⟩ := hr₁
      obtain ⟨hreadable, rfl⟩ := look_eq_ok_iff.mp ht
      -- The end of the file is no token that is left.
      have hproper := h.proper t List.mem_cons_self
      have hrest : rest.length < fuel := by simpa using hfuel
      obtain ⟨r₂, hnext, hr₂, -⟩ := hr₁.take hreadable
      cases hk : t.kind with
      | keyCount n =>
        dsimp only
        rw [read_eq hnext]
        have hmore := ih (items ++ [⟨.keys n, t.span⟩]) hr₂ hrest
        rw [List.getLast?_concat] at hmore
        refine hmore.bind_ok fun y _ r' hr' => ⟨_, rfl, ?_⟩
        rwa [List.append_assoc] at hr'
      | spaceCount n =>
        dsimp only
        rw [read_eq hnext]
        have hmore := ih (items ++ [⟨.spaces n, t.span⟩]) hr₂ hrest
        rw [List.getLast?_concat] at hmore
        refine hmore.bind_ok fun y _ r' hr' => ⟨_, rfl, ?_⟩
        rwa [List.append_assoc] at hr'
      | symbol s =>
        cases s with
        | openBracket =>
          dsimp only
          rw [read_eq hnext]
          refine (bracketed_reads hr₂ rfl integer?_place _).bind fun y _ r₃ _ hr₃ => ?_
          obtain ⟨rfl, hr₃, -⟩ := hr₃
          have hlt := y.2.2
          have hmore := ih (items ++ [⟨.remap y.1.1, t.span.join y.1.2⟩]) hr₃ (by omega)
          rw [List.getLast?_concat] at hmore
          refine hmore.bind_ok fun y' _ r' hr' => ⟨_, rfl, ?_⟩
          rwa [List.append_assoc] at hr'
        | semicolon =>
          dsimp only
          refine Reads.lift rowSpan_follows fun semi span hspan => ?_
          obtain ⟨rfl, rfl⟩ := hspan
          rw [read_eq hnext]
          exact .ok ⟨by rw [List.append_nil]; rfl, hr₂⟩
        -- The row is cut short, and its last item is looked up if it has one.
        | closeBrace =>
          dsimp only
          rw [cutShort_eq]
          exact .error _
        | _ => exact .error _
      | endOfFile => exact absurd hk hproper
      | _ => exact .error _

theorem layoutRow_reads (h : Holds stop ts r) :
    Reads (Leaves stop) (looping (layoutItems []) r) (Parser.layoutRow stop ts) := by
  refine (layoutItems_reads [] h h.length_lt_rounds).bind_ok fun y row r' hr' => ?_
  obtain ⟨rfl, hr'⟩ := hr'
  exact ⟨_, rfl, rfl, hr'⟩

theorem layoutBlock_reads (h : Holds stop ts r) (keyword : Span) :
    Reads (Closes stop (·.1) (·.2)) (layoutBlock keyword r)
      (Parser.layoutBlock stop keyword ts) := by
  unfold layoutBlock Parser.layoutBlock
  refine (openBlock_reads h keyword).bind fun y₁ _ r₁ _ hr₁ => ?_
  obtain ⟨-, hr₁, -⟩ := hr₁
  refine (looping_body_reads layoutRow_reads keyword hr₁).bind fun y₂ _ r₂ _ hr₂ => ?_
  obtain ⟨rfl, hr₂, hlast⟩ := hr₂
  exact .ok ⟨rfl, hr₂, hlast⟩

/-! ## Options and key declarations -/

theorem optionLine_reads (h : Holds stop ts r) :
    Reads (Leaves stop) (optionLine r) (Parser.optionLine stop ts) := by
  unfold optionLine Parser.optionLine
  refine (expect_reads h rfl identifier?_place _).bind fun y₁ _ r₁ _ hr₁ => ?_
  obtain ⟨rfl, hr₁, -⟩ := hr₁
  refine (value_reads hr₁).bind fun y₂ _ r₂ _ hr₂ => ?_
  obtain ⟨rfl, hr₂, t, hlast, hplace⟩ := hr₂
  -- The value was taken last, so a missing semicolon is missed behind it.
  have hsemi := semicolon_reads hr₂ hlast
  rw [hplace] at hsemi
  refine hsemi.bind fun y₃ _ r₃ _ hr₃ => ?_
  obtain ⟨rfl, hr₃, -⟩ := hr₃
  exact .ok ⟨rfl, hr₃⟩

theorem optionsBlock_reads (h : Holds stop ts r) (keyword : Span) :
    Reads (Closes stop (·.1) (·.2)) (optionsBlock keyword r)
      (Parser.optionsBlock stop keyword ts) := by
  unfold optionsBlock Parser.optionsBlock
  refine (expect_reads h rfl identifier?_place _).bind fun y₁ _ r₁ _ hr₁ => ?_
  obtain ⟨rfl, hr₁, -⟩ := hr₁
  refine (openBlock_reads hr₁ keyword).bind fun y₂ _ r₂ _ hr₂ => ?_
  obtain ⟨-, hr₂, -⟩ := hr₂
  refine (looping_body_reads optionLine_reads keyword hr₂).bind fun y₃ _ r₃ _ hr₃ => ?_
  obtain ⟨rfl, hr₃, hlast⟩ := hr₃
  exact .ok ⟨rfl, hr₃, hlast⟩

theorem out?_place {t : Token} {span : Span} (h : out? t = some span) : t.span = span :=
  (out?_eq_some_iff.mp h).2.symm

theorem keyOutput_reads (h : Holds stop ts r) :
    Reads (Leaves stop) (keyOutput r) (Parser.keyOutput stop ts) := by
  unfold keyOutput Parser.keyOutput
  refine (expect_reads h rfl out?_place _).bind fun y₁ _ r₁ _ hr₁ => ?_
  obtain ⟨rfl, hr₁, -⟩ := hr₁
  refine (expect_reads hr₁ rfl identifier?_place _).bind fun y₂ _ r₂ _ hr₂ => ?_
  obtain ⟨rfl, hr₂, -⟩ := hr₂
  refine (value_reads hr₂).bind fun y₃ _ r₃ _ hr₃ => ?_
  obtain ⟨rfl, hr₃, t, hlast, hplace⟩ := hr₃
  -- As in an option, the value was taken last.
  have hsemi := semicolon_reads hr₃ hlast
  rw [hplace] at hsemi
  refine hsemi.bind fun y₄ _ r₄ _ hr₄ => ?_
  obtain ⟨rfl, hr₄, -⟩ := hr₄
  exact .ok ⟨rfl, hr₄⟩

theorem keyDeclaration_reads (h : Holds stop ts r) (keyword : Span) :
    Reads (Closes stop (·.1) (·.2)) (keyDeclaration keyword r)
      (Parser.keyDeclaration stop keyword ts) := by
  unfold keyDeclaration Parser.keyDeclaration
  refine (expect_reads h rfl identifier?_place _).bind fun y₁ _ r₁ _ hr₁ => ?_
  obtain ⟨rfl, hr₁, -⟩ := hr₁
  refine (openBlock_reads hr₁ keyword).bind fun y₂ _ r₂ _ hr₂ => ?_
  obtain ⟨-, hr₂, -⟩ := hr₂
  refine (looping_body_reads keyOutput_reads keyword hr₂).bind fun y₃ _ r₃ _ hr₃ => ?_
  obtain ⟨rfl, hr₃, hlast⟩ := hr₃
  exact .ok ⟨rfl, hr₃, hlast⟩

/-! ## Layers -/

theorem plainKey_reads (h : Holds stop ts r) :
    Reads (Leaves stop) (plainKey r) (Parser.plainKey stop ts) := by
  unfold plainKey
  cases ts with
  | nil =>
    refine (h.peek_reads (Nat.zero_le _)).bind (g := fun _ => .error _) fun t _ r₁ ht hr₁ => ?_
    obtain ⟨rfl, -⟩ := hr₁
    obtain rfl := Except.ok.inj ht
    exact .error _
  | cons t rest =>
    rw [Parser.plainKey]
    refine (h.peek_reads (Nat.zero_le _)).bind fun _ t r₁ ht hr₁ => ?_
    obtain ⟨rfl, hr₁, -⟩ := hr₁
    obtain ⟨hreadable, rfl⟩ := look_eq_ok_iff.mp ht
    obtain ⟨r₂, hnext, hr₂, -⟩ := hr₁.take hreadable
    cases hk : t.kind with
    | identifier name =>
      dsimp only
      rw [read_eq hnext]
      exact .ok ⟨rfl, hr₂⟩
    | character c =>
      dsimp only
      rw [read_eq hnext]
      exact .ok ⟨rfl, hr₂⟩
    | string contents =>
      dsimp only
      rw [read_eq hnext]
      -- One character is there to be looked at; any other number of them is a fault.
      cases contents.toList with
      | nil => exact .error _
      | cons c cs =>
        cases cs with
        | nil => exact .ok ⟨rfl, hr₂⟩
        | cons _ _ => exact .error _
    | symbol s =>
      cases s with
      | openBracket =>
        dsimp only
        rw [read_eq hnext]
        refine (bracketed_reads hr₂ rfl identifier?_place _).bind fun y _ r₃ _ hr₃ => ?_
        obtain ⟨rfl, hr₃, -⟩ := hr₃
        exact .ok ⟨rfl, hr₃⟩
      | _ => exact .error _
    | _ => exact .error _

/-- What comes of trying to read something: nothing is read, or it is read whole. -/
inductive Tried (stop : Position) : Option (α × Rest ts) → Option α → Reader → Prop
  | left {r : Reader} (h : Holds stop ts r) : Tried stop none none r
  | whole {r : Reader} {a : α} {rest : Rest ts} (h : Holds stop rest.1 r) :
    Tried stop (some (a, rest)) (some a) r

/-- The second token can be looked at because the first one is in the buffer. -/
theorem timeout_reads (h : Holds stop ts r) :
    Reads (Tried stop) (timeout r) (Parser.timeout stop ts) := by
  unfold timeout
  cases ts with
  | nil =>
    refine (h.peek_reads (Nat.zero_le _)).bind (g := fun _ => .ok none) fun t _ r₁ ht hr₁ => ?_
    obtain ⟨rfl, hr₁, -⟩ := hr₁
    obtain rfl := Except.ok.inj ht
    exact .ok (.left hr₁)
  | cons t rest =>
    rw [Parser.timeout]
    refine (h.peek_reads (Nat.zero_le _)).bind fun _ t r₁ ht hr₁ => ?_
    obtain ⟨rfl, hr₁, hbuffer, -⟩ := hr₁
    obtain ⟨hreadable, rfl⟩ := look_eq_ok_iff.mp ht
    by_cases hopen : t.kind = .symbol .openBracket
    · simp only [if_pos hopen]
      cases rest with
      | nil =>
        refine (hr₁.peek_reads hbuffer).bind (g := fun _ => .ok none) fun t' _ r₂ ht' hr₂ => ?_
        obtain ⟨rfl, hr₂, -⟩ := hr₂
        obtain rfl := Except.ok.inj ht'
        exact .ok (.left hr₂)
      | cons t' rest =>
        rw [Parser.accept, bind_assoc]
        refine (hr₁.peek_reads hbuffer).bind fun _ t' r₂ ht' hr₂ => ?_
        obtain ⟨rfl, hr₂, -⟩ := hr₂
        obtain ⟨hreadable', rfl⟩ := look_eq_ok_iff.mp ht'
        cases hn : integer? t' with
        | none => exact .ok (.left hr₂)
        | some n =>
          -- Both tokens were looked at, and now they are taken.
          obtain ⟨r₃, hnext, hr₃, -⟩ := hr₂.take hreadable
          obtain ⟨r₄, hnext', hr₄, -⟩ := hr₃.take hreadable'
          dsimp only
          rw [read_eq hnext, read_eq hnext', hn]
          refine (expect_reads hr₄ rfl symbol?_place _).bind fun y _ r₅ _ hr₅ => ?_
          obtain ⟨rfl, hr₅, -⟩ := hr₅
          exact .ok (.whole hr₅)
    · simp only [if_neg hopen]
      exact .ok (.left hr₁)

theorem key_reads (h : Holds stop ts r) : Reads (Leaves stop) (key r) (Parser.key stop ts) := by
  unfold key Parser.key
  refine (plainKey_reads h).bind fun y₁ _ r₁ _ hr₁ => ?_
  obtain ⟨rfl, hr₁⟩ := hr₁
  refine (hr₁.accept_reads rfl).bind fun _ _ r₂ _ hr₂ => ?_
  cases hr₂ with
  | left hr₂ _ => exact .ok ⟨rfl, hr₂⟩
  | taken hr₂ _ _ =>
    refine (plainKey_reads hr₂).bind fun y₃ _ r₃ _ hr₃ => ?_
    obtain ⟨rfl, hr₃⟩ := hr₃
    refine (timeout_reads hr₃).bind fun _ _ r₄ _ hr₄ => ?_
    cases hr₄ with
    | left hr₄ => exact .ok ⟨rfl, hr₄⟩
    | whole hr₄ => exact .ok ⟨rfl, hr₄⟩

theorem chord_reads (h : Holds stop ts r) (start : Span) :
    Reads (Leaves stop) (chord start r) (Parser.chord stop start ts) := by
  unfold chord Parser.chord
  refine (key_reads h).bind fun y₁ _ r₁ _ hr₁ => ?_
  obtain ⟨rfl, hr₁⟩ := hr₁
  refine (expect_reads hr₁ rfl symbol?_place _ _).bind fun y₂ _ r₂ _ hr₂ => ?_
  obtain ⟨rfl, hr₂, -⟩ := hr₂
  exact .ok ⟨rfl, hr₂⟩

def layerRowOf (items : List RowItem) (semi : Span) : LayerRow where
  items := items
  semicolon := semi
  span := ((items.head?.map RowItem.span).getD {}).join semi

/-- Every round takes an item of the row, which is at least one token. -/
theorem rowItems_reads (items : List RowItem) {fuel : Nat} (h : Holds stop ts r)
    (hfuel : ts.length < fuel) :
    Reads (fun y row r' => row = layerRowOf (items ++ y.1.1) y.1.2 ∧ Holds stop y.2.1 r')
      (rowItems items fuel r)
      (Parser.rowItems stop (items.getLast?.map RowItem.span) ts) := by
  induction fuel generalizing items ts r with
  | zero => omega
  | succ fuel ih =>
    rw [rowItems]
    cases ts with
    | nil =>
      rw [Parser.rowItems]
      refine (h.peek_reads (Nat.zero_le _)).bind (g := fun _ => .error _) fun t _ r₁ ht hr₁ => ?_
      obtain ⟨rfl, -⟩ := hr₁
      obtain rfl := Except.ok.inj ht
      show Reads _ ((liftM (cutShort RowItem.span .invalidKey items _) : Reading _) r₁) _
      rw [cutShort_eq]
      exact .error _
    | cons t rest =>
      rw [Parser.rowItems]
      refine (h.peek_reads (Nat.zero_le _)).bind fun _ t r₁ ht hr₁ => ?_
      obtain ⟨rfl, hr₁, -⟩ := hr₁
      obtain ⟨hreadable, rfl⟩ := look_eq_ok_iff.mp ht
      have hproper := h.proper t List.mem_cons_self
      have hrest : rest.length < fuel := by simpa using hfuel
      obtain ⟨r₂, hnext, hr₂, -⟩ := hr₁.take hreadable
      -- A key starts at the token itself, which is still there.
      have hkey : Reads (fun y row r' => row = layerRowOf (items ++ y.1.1) y.1.2 ∧
            Holds stop y.2.1 r')
          ((key >>= fun k => rowItems (items ++ [.key k]) fuel) r₁)
          (Parser.key stop (t :: rest) >>= fun y =>
            Parser.rowItems stop (some y.1.span) y.2.1 >>= fun y' =>
              pure ((.key y.1 :: y'.1.1, y'.1.2), y.2.after y'.2)) := by
        refine (key_reads hr₁).bind fun y _ r₃ _ hr₃ => ?_
        obtain ⟨rfl, hr₃⟩ := hr₃
        have hlt := y.2.2
        simp only [List.length_cons] at hlt
        have hmore := ih (items ++ [.key y.1]) hr₃ (by omega)
        rw [List.getLast?_concat] at hmore
        refine hmore.bind_ok fun y' _ r' hr' => ⟨_, rfl, ?_⟩
        rwa [List.append_assoc] at hr'
      cases hk : t.kind with
      | symbol s =>
        cases s with
        | semicolon =>
          dsimp only
          refine Reads.lift rowSpan_follows fun semi span hspan => ?_
          obtain ⟨rfl, rfl⟩ := hspan
          rw [read_eq hnext]
          exact .ok ⟨by rw [List.append_nil]; rfl, hr₂⟩
        | closeBrace =>
          dsimp only
          rw [cutShort_eq]
          exact .error _
        | chordOpen =>
          dsimp only
          rw [read_eq hnext]
          refine (chord_reads hr₂ t.span).bind fun y _ r₃ _ hr₃ => ?_
          obtain ⟨rfl, hr₃⟩ := hr₃
          have hlt := y.2.2
          have hmore := ih (items ++ [.chord y.1]) hr₃ (by omega)
          rw [List.getLast?_concat] at hmore
          refine hmore.bind_ok fun y' _ r' hr' => ⟨_, rfl, ?_⟩
          rwa [List.append_assoc] at hr'
        | _ => exact hkey
      | endOfFile => exact absurd hk hproper
      | _ => exact hkey

theorem layerRow_reads (h : Holds stop ts r) :
    Reads (Leaves stop) (looping (rowItems []) r) (Parser.layerRow stop ts) := by
  refine (rowItems_reads [] h h.length_lt_rounds).bind_ok fun y row r' hr' => ?_
  obtain ⟨rfl, hr'⟩ := hr'
  exact ⟨_, rfl, rfl, hr'⟩

theorem layerBlock_reads (h : Holds stop ts r) (keyword : Span) :
    Reads (Closes stop (·.1) (·.2)) (layerBlock keyword r)
      (Parser.layerBlock stop keyword ts) := by
  unfold layerBlock Parser.layerBlock
  refine (expect_reads h rfl identifier?_place _).bind fun y₁ _ r₁ _ hr₁ => ?_
  obtain ⟨rfl, hr₁, -⟩ := hr₁
  refine (openBlock_reads hr₁ keyword).bind fun y₂ _ r₂ _ hr₂ => ?_
  obtain ⟨-, hr₂, -⟩ := hr₂
  refine (looping_body_reads layerRow_reads keyword hr₂).bind fun y₃ _ r₃ _ hr₃ => ?_
  obtain ⟨rfl, hr₃, hlast⟩ := hr₃
  exact .ok ⟨rfl, hr₃, hlast⟩

/-! ## Whole descriptions -/

theorem block_reads {t : Token} {rest : List Token} (h : Holds stop (t :: rest) r)
    (ht : Readable t.kind) :
    Reads (Closes stop (·.1) (·.2)) (block t r) (Parser.block stop (t :: rest)) := by
  obtain ⟨r₁, hnext, hr₁, -⟩ := h.take ht
  rw [Parser.block, look_of_readable ht, Outcome.ok_bind]
  split
  · rename_i hk
    simp only [block, hk]
    rw [read_eq hnext]
    refine (layoutBlock_reads hr₁ t.span).bind fun y _ r₂ _ hr₂ => ?_
    obtain ⟨rfl, hr₂, hlast⟩ := hr₂
    exact .ok ⟨rfl, hr₂, hlast⟩
  · rename_i hk
    simp only [block, hk]
    rw [read_eq hnext]
    refine (optionsBlock_reads hr₁ t.span).bind fun y _ r₂ _ hr₂ => ?_
    obtain ⟨rfl, hr₂, hlast⟩ := hr₂
    exact .ok ⟨rfl, hr₂, hlast⟩
  · rename_i hk
    simp only [block, hk]
    rw [read_eq hnext]
    refine (keyDeclaration_reads hr₁ t.span).bind fun y _ r₂ _ hr₂ => ?_
    obtain ⟨rfl, hr₂, hlast⟩ := hr₂
    exact .ok ⟨rfl, hr₂, hlast⟩
  · rename_i hk
    simp only [block, hk]
    rw [read_eq hnext]
    refine (layerBlock_reads hr₁ t.span).bind fun y _ r₂ _ hr₂ => ?_
    obtain ⟨rfl, hr₂, hlast⟩ := hr₂
    exact .ok ⟨rfl, hr₂, hlast⟩
  · rename_i hlayout hoptions hkey hlayer
    have hblock : block t = throw (faultAt .unexpectedTopLevel t) := by
      unfold block
      split
      · exact absurd ‹_› hlayout
      · exact absurd ‹_› hoptions
      · exact absurd ‹_› hkey
      · exact absurd ‹_› hlayer
      · rfl
    rw [hblock]
    exact .error _

/-- Every round takes a block, which is at least one token. -/
theorem blocks_reads (first : Option Span) {fuel : Nat} (h : Holds stop ts r)
    (hfuel : ts.length < fuel) :
    Reads (fun found a r' => a = found ∧ Holds stop [] r') (blocks first fuel r)
      (Parser.blocks stop first ts) := by
  induction fuel generalizing first ts r with
  | zero => omega
  | succ fuel ih =>
    rw [blocks]
    cases ts with
    | nil =>
      rw [Parser.blocks]
      refine (h.peek_reads (Nat.zero_le _)).bind (g := fun _ => .ok []) fun t _ r₁ ht hr₁ => ?_
      obtain ⟨rfl, hr₁, -⟩ := hr₁
      obtain rfl := Except.ok.inj ht
      exact .ok ⟨rfl, hr₁⟩
    | cons t rest =>
      -- A block looks at its first token, as is done here before it is read.
      have hlook : Parser.block stop (t :: rest) =
          look t >>= fun _ => Parser.block stop (t :: rest) := by
        cases ht : look t with
        | error d =>
          rw [Parser.block, ht]
          rfl
        | ok t' => rfl
      rw [Parser.blocks, hlook, bind_assoc]
      refine (h.peek_reads (Nat.zero_le _)).bind fun _ t r₁ ht hr₁ => ?_
      obtain ⟨rfl, hr₁, -⟩ := hr₁
      obtain ⟨hreadable, rfl⟩ := look_eq_ok_iff.mp ht
      have hproper := h.proper t List.mem_cons_self
      -- The loop stops at the end of the file only.
      simp only [if_neg hproper]
      refine (block_reads hr₁ hreadable).bind fun y _ r₂ _ hr₂ => ?_
      obtain ⟨rfl, hr₂, t', hlast, hplace⟩ := hr₂
      have hlt := y.2.2
      refine Reads.lift (Follows.plain (checkLayout first y.1.1)) fun first' _ hfirst => ?_
      subst hfirst
      rw [read_eq (lastToken_eq hlast)]
      refine (ih first' hr₂ (by omega)).bind fun others _ r₃ _ hr₃ => ?_
      obtain ⟨rfl, hr₃⟩ := hr₃
      rw [hplace]
      exact .ok ⟨rfl, hr₃⟩

theorem description_reads {s : TokenStream} (h : Holds s.stop s.tokens r) :
    Reads (fun d a _ => a = d) (description r) (Parser.description s) := by
  unfold description Parser.description
  have hblocks : Reads _ (looping (blocks none) r) _ := blocks_reads none h h.length_lt_rounds
  refine hblocks.bind fun _ found r₁ _ hr₁ => ?_
  obtain ⟨rfl, hr₁⟩ := hr₁
  cases layoutOf? found with
  | some layout => exact .ok rfl
  | none =>
    -- At the end of the file stands the end of the file.
    refine (hr₁.peek_reads (Nat.zero_le _)).bind (g := fun _ => .error _) fun t _ r₂ ht hr₂ => ?_
    obtain ⟨rfl, -⟩ := hr₂
    obtain rfl := Except.ok.inj ht
    exact .error _

/-- Reading a description never misses, whatever the text. -/
theorem parse_follows (source : Text) :
    Follows Eq (parse source) (Description.parse source) := by
  have hread := description_reads (Holds.start source)
  unfold parse Description.parse
  rw [← bind_pure (Parser.description _)]
  refine Follows.bind hread fun d x _ hx => ?_
  exact .ok hx.symm

end Keyplan.Guarded
