import ChimesUtils.Lib.Marked

/-!
# Numbered tokens

A token is a fixed marker followed by the longest run of decimal digits after it. `tokens m s` reads
the tokens of a text from left to right and `renameTokens m g s` rewrites all of them at once.

* `Separated q D`: no mark of a marked text is directly followed by a letter of kind `q`; then
  rendering the marks as tokens gives exactly these tokens (`tokens_render`);
* `exists_scan`: every text is a rendering of a marked text whose marks are its tokens (`Scanned`);
* `replace_render_token`, `renameTokens_render`: replacing one token text, or renaming all tokens,
  acts on the marks of a scanned text.
-/

namespace ChimesUtils.Lib

/-- The decimal digits of a number. -/
abbrev decimal (n : ℕ) : List Char := Nat.toDigits 10 n

theorem decimal_ne_nil (n : ℕ) : decimal n ≠ [] := Nat.toDigits_ne_nil

theorem isDigit_of_mem_decimal {n : ℕ} {c : Char} (h : c ∈ decimal n) : c.isDigit = true :=
  Nat.isDigit_of_mem_toDigits (by decide) (by decide) h

theorem decimal_injective {a b : ℕ} (h : decimal a = decimal b) : a = b := by
  have := congrArg (fun ds => Nat.ofDigitChars 10 ds 0) h
  simpa [decimal] using this

/-- The text a token starts with: its first letter is no digit and stands nowhere else in it. -/
structure Marker where
  first : Char
  rest : List Char
  first_not_digit : first.isDigit = false
  first_notMem : first ∉ rest

namespace Marker

variable (m : Marker)

/-- The text of a marker. -/
def text : List Char := m.first :: m.rest

@[simp] theorem text_ne_nil : m.text ≠ [] := List.cons_ne_nil _ _

theorem first_notMem_digits {ds : List Char} (h : ∀ c ∈ ds, c.isDigit = true) : m.first ∉ ds := by
  intro hm
  have := h _ hm
  rw [m.first_not_digit] at this
  cases this

end Marker

/-- The digits of the token at the start of the text. -/
def tokenAt (m : Marker) (s : List Char) : Option (List Char) :=
  if m.text <+: s then
    match (s.drop m.text.length).takeWhile Char.isDigit with
    | [] => none
    | d :: ds => some (d :: ds)
  else none

/-- The tokens of a text, from left to right. -/
def tokens (m : Marker) : List Char → List (List Char)
  | [] => []
  | c :: s => ((tokenAt m (c :: s)).map (m.text ++ ·)).toList ++ tokens m s

/-- Rewrite every token, given by its digits, at once. -/
def renameTokens (m : Marker) (g : List Char → List Char) (s : List Char) : List Char :=
  rewrite (fun s => (tokenAt m s).map fun ds => (m.text.length + ds.length, g ds)) s

/-! ## Reading one token -/

section TokenAt

variable (m : Marker)

theorem takeWhile_append_of_all {α : Type} {q : α → Bool} {x y : List α} (hx : ∀ c ∈ x, q c = true)
    (hy : ∀ c ∈ y.head?, q c = false) : (x ++ y).takeWhile q = x := by
  rw [List.takeWhile_append_of_pos hx]
  rcases y with _ | ⟨c, y⟩
  · simp
  · rw [List.takeWhile_cons_of_neg (by simp [hy c rfl]), List.append_nil]

theorem tokenAt_of_ne {c : Char} (hc : c ≠ m.first) (s : List Char) : tokenAt m (c :: s) = none := by
  refine if_neg fun h => hc ?_
  exact (List.cons_prefix_cons.mp h).1.symm

theorem tokenAt_token {ds s : List Char} (hne : ds ≠ []) (hds : ∀ c ∈ ds, c.isDigit = true)
    (hs : ∀ c ∈ s.head?, c.isDigit = false) : tokenAt m (m.text ++ (ds ++ s)) = some ds := by
  obtain ⟨d, ds, rfl⟩ := List.exists_cons_of_ne_nil hne
  rw [tokenAt, if_pos (List.prefix_append _ _), List.drop_left, takeWhile_append_of_all hds hs]

theorem tokenAt_eq_some {s ds : List Char} (h : tokenAt m s = some ds) :
    ds ≠ [] ∧ (∀ c ∈ ds, c.isDigit = true) ∧
      ∃ r, s = m.text ++ (ds ++ r) ∧ ∀ c ∈ r.head?, c.isDigit = false := by
  unfold tokenAt at h
  split_ifs at h with hp
  obtain ⟨t, rfl⟩ := hp
  rw [List.drop_left] at h
  have hds : t.takeWhile Char.isDigit = ds ∧ ds ≠ [] := by
    split at h
    · cases h
    · cases h
      exact ⟨by assumption, List.cons_ne_nil _ _⟩
  refine ⟨hds.2, fun c hc => ?_, t.dropWhile Char.isDigit, ?_, fun c hc => ?_⟩
  · rw [← hds.1] at hc
    exact List.mem_takeWhile_imp hc
  · rw [← hds.1, List.takeWhile_append_dropWhile]
  · have := List.head?_dropWhile_not Char.isDigit t
    rw [Option.mem_def] at hc
    rw [hc] at this
    simpa using this

theorem tokenAt_isSome_iff {s : List Char} :
    (tokenAt m s).isSome ↔ ∃ d, d.isDigit = true ∧ m.text ++ [d] <+: s := by
  constructor
  · intro h
    obtain ⟨ds, hds⟩ := Option.isSome_iff_exists.mp h
    obtain ⟨hne, hdig, r, rfl, -⟩ := tokenAt_eq_some m hds
    obtain ⟨d, ds, rfl⟩ := List.exists_cons_of_ne_nil hne
    exact ⟨d, hdig d List.mem_cons_self, ds ++ r, by simp⟩
  · rintro ⟨d, hd, r, rfl⟩
    rw [List.append_assoc, tokenAt, if_pos (List.prefix_append _ _), List.drop_left]
    simp [hd]

end TokenAt

/-! ## Reading all tokens -/

section Tokens

variable (m : Marker)

theorem tokens_append_of_notMem {x : List Char} (hx : m.first ∉ x) (s : List Char) :
    tokens m (x ++ s) = tokens m s := by
  induction x with
  | nil => rfl
  | cons c x ih =>
    have hc : c ≠ m.first := fun h => hx (h ▸ List.mem_cons_self)
    rw [List.cons_append, tokens, tokenAt_of_ne m hc, ih fun h => hx (List.mem_cons_of_mem _ h)]
    rfl

theorem tokens_token {ds s : List Char} (hne : ds ≠ []) (hds : ∀ c ∈ ds, c.isDigit = true)
    (hs : ∀ c ∈ s.head?, c.isDigit = false) :
    tokens m (m.text ++ (ds ++ s)) = (m.text ++ ds) :: tokens m s := by
  have h := tokenAt_token m hne hds hs
  rw [Marker.text, List.cons_append] at h ⊢
  rw [tokens, h, ← List.append_assoc, tokens_append_of_notMem]
  · rfl
  · rw [List.mem_append]
    rintro (h | h)
    · exact m.first_notMem h
    · exact m.first_notMem_digits hds h

/-- The tokens that start in `a` when `b` follows. -/
def tokensIn : List Char → List Char → List (List Char)
  | [], _ => []
  | c :: a, b => ((tokenAt m (c :: a ++ b)).map (m.text ++ ·)).toList ++ tokensIn a b

theorem tokens_append (a b : List Char) : tokens m (a ++ b) = tokensIn m a b ++ tokens m b := by
  induction a with
  | nil => rfl
  | cons c a ih => rw [List.cons_append, tokens, ih, tokensIn, List.append_assoc, List.cons_append]

end Tokens

/-! ## Marks rendered as tokens -/

/-- No mark is directly followed by a letter of kind `q`. -/
def Separated {α ι : Type} (q : α → Bool) (D : Marked α ι) : Prop :=
  D.IsChain fun x y => x.isRight = true → ∀ c, y = .inl c → q c = false

theorem Separated.head {α ι : Type} {q : α → Bool} {i : ι} {D : Marked α ι}
    (h : Separated q (.inr i :: D)) {f : ι → List α} (hf : ∀ i, ∀ c ∈ (f i).head?, q c = false)
    (hne : ∀ i, f i ≠ []) : ∀ c ∈ (render f D).head?, q c = false := by
  rcases D with _ | ⟨x, D⟩
  · simp
  · rcases x with c | j
    · intro d hd
      cases hd
      exact (List.isChain_cons_cons.mp h).1 rfl c rfl
    · intro d hd
      obtain ⟨a, r, hr⟩ := List.exists_cons_of_ne_nil (hne j)
      rw [render_inr_cons, hr] at hd
      exact hf j d (by rw [hr]; simpa using hd)

theorem Separated.tail {α ι : Type} {q : α → Bool} {x : α ⊕ ι} {D : Marked α ι}
    (h : Separated q (x :: D)) : Separated q D := List.IsChain.tail h

theorem Separated.of_isInfix {α ι : Type} {q : α → Bool} {D E : Marked α ι} (h : Separated q E)
    (hi : D <:+: E) : Separated q D := List.IsChain.infix h hi

theorem separated_plain {α ι : Type} (q : α → Bool) (t : List α) :
    Separated q (plain t : Marked α ι) := by
  induction t with
  | nil => exact List.isChain_nil
  | cons c t ih =>
    rcases t with _ | ⟨d, t⟩
    · exact List.isChain_singleton _
    · exact List.isChain_cons_cons.mpr ⟨fun h => by simp at h, ih⟩

/-- Two separated texts stay separated when no mark at the end of the first meets a letter of kind
`q` at the start of the second. -/
theorem Separated.append {α ι : Type} {q : α → Bool} {D E : Marked α ι} (hD : Separated q D)
    (hE : Separated q E) (h : (∀ i, D.getLast? ≠ some (.inr i)) ∨
      ∀ c, E.head? = some (.inl c) → q c = false) : Separated q (D ++ E) := by
  refine List.IsChain.append hD hE fun x hx y hy hr c hc => ?_
  rcases h with h | h
  · rcases x with a | i
    · cases hr
    · exact absurd hx (h i)
  · exact h c (hc ▸ hy)

theorem Separated.of_head {α ι : Type} {q : α → Bool} {x : α ⊕ ι} {D : Marked α ι}
    (hD : Separated q D) (h : x.isRight = true → ∀ c, D.head? = some (.inl c) → q c = false) :
    Separated q (x :: D) := by
  rcases D with _ | ⟨y, D⟩
  · exact List.isChain_singleton _
  · exact List.isChain_cons_cons.mpr ⟨fun hx c hc => h hx c (by rw [hc]; rfl), hD⟩

theorem Separated.replace {α ι : Type} [DecidableEq α] [DecidableEq ι] {q : α → Bool} {p : List α}
    (hp : p ≠ []) {c : α} {t : List α} (hc : q c = false) {D : Marked α ι} (h : Separated q D) :
    Separated q (replace (plain p) (plain (c :: t)) D) := by
  induction D using pattern_induction (plain_ne_nil hp) with
  | cut E ih =>
    rw [replace_append (plain_ne_nil hp)]
    refine (separated_plain q _).append (ih (h.of_isInfix (List.suffix_append _ _).isInfix))
      (Or.inl fun i hi => ?_)
    have := List.mem_of_getLast? hi
    simp [plain] at this
  | step D hD ih =>
    rcases D with _ | ⟨x, D⟩
    · rw [replace_nil (plain_ne_nil hp)]
      exact List.isChain_nil
    · rw [replace_cons_of_not (plain_ne_nil hp) hD]
      refine (ih x D rfl h.tail).of_head fun hr d hd => ?_
      rcases x with a | i
      · cases hr
      rcases D with _ | ⟨y, D⟩
      · rw [replace_nil (plain_ne_nil hp)] at hd
        cases hd
      by_cases hy : plain p <+: y :: D
      · obtain ⟨E, hE⟩ := hy
        rw [← hE, replace_append (plain_ne_nil hp), plain_cons, List.cons_append, List.head?_cons] at hd
        cases hd
        exact hc
      · rw [replace_cons_of_not (plain_ne_nil hp) hy, List.head?_cons] at hd
        cases hd
        exact (List.isChain_cons_cons.mp h).1 rfl d rfl

variable {ι : Type}

/-- `f` renders every mark as a token of `m`. -/
def TokenRender (m : Marker) (f : ι → List Char) : Prop :=
  ∀ i, ∃ ds, f i = m.text ++ ds ∧ ds ≠ [] ∧ ∀ c ∈ ds, c.isDigit = true

theorem TokenRender.head {m : Marker} {f : ι → List Char} (hf : TokenRender m f) (i : ι) :
    ∃ r, f i = m.first :: r := by
  obtain ⟨ds, h, -, -⟩ := hf i
  exact ⟨m.rest ++ ds, by rw [h]; rfl⟩

theorem TokenRender.head_render {m : Marker} {f : ι → List Char} (hf : TokenRender m f) {i : ι}
    {D : Marked Char ι} (h : Separated Char.isDigit (.inr i :: D)) :
    ∀ c ∈ (render f D).head?, c.isDigit = false := by
  refine h.head (fun j c hc => ?_) fun j => ?_
  · obtain ⟨r, hr⟩ := hf.head j
    rw [hr] at hc
    cases hc
    exact m.first_not_digit
  · obtain ⟨r, hr⟩ := hf.head j
    exact hr ▸ List.cons_ne_nil _ _

/-- **Marks rendered as tokens are the tokens of the rendering**, when no letter starts a token. -/
theorem tokens_render {m : Marker} {f : ι → List Char} (hf : TokenRender m f) {D : Marked Char ι}
    (hl : m.first ∉ letters D) (hs : Separated Char.isDigit D) :
    tokens m (render f D) = (marks D).map f := by
  induction D with
  | nil => rfl
  | cons x D ih =>
    rcases x with c | i
    · rw [letters_inl_cons, List.mem_cons, not_or] at hl
      rw [render_inl_cons, tokens, tokenAt_of_ne m fun h => hl.1 h.symm, ih hl.2 hs.tail]
      rfl
    · obtain ⟨ds, hi, hne, hds⟩ := hf i
      rw [render_inr_cons, hi, List.append_assoc, tokens_token m hne hds (hf.head_render hs),
        ih hl hs.tail, marks_inr_cons, List.map_cons, hi]

/-! ## Every text is a rendering of its tokens -/

/-- The digits of a token. -/
abbrev Numeral : Type := {ds : List Char // ds ≠ [] ∧ ∀ c ∈ ds, c.isDigit = true}

namespace Numeral

/-- The numeral of a number. -/
def ofNat (n : ℕ) : Numeral := ⟨decimal n, decimal_ne_nil n, fun _ h => isDigit_of_mem_decimal h⟩

/-- The numeral as a token of `m`. -/
def token (m : Marker) (d : Numeral) : List Char := m.text ++ d.1

theorem tokenRender (m : Marker) : TokenRender m (token m) := fun d => ⟨d.1, rfl, d.2.1, d.2.2⟩

theorem headApart (m : Marker) {p : List Char} (hp : m.first ∉ p) : HeadApart (token m) p :=
  fun d => ⟨m.first, m.rest ++ d.1, rfl, hp⟩

theorem token_injective (m : Marker) : Function.Injective (token m) := fun _ _ h =>
  Subtype.ext (List.append_cancel_left h)

end Numeral

/-- A marked text whose marks are exactly the tokens of its rendering. -/
structure Scanned (m : Marker) (D : Marked Char Numeral) : Prop where
  separated : Separated Char.isDigit D
  noStray : ∀ d : Char, d.isDigit = true → ¬ plain (m.text ++ [d]) <:+: D

theorem Scanned.tail {m : Marker} {x : Char ⊕ Numeral} {D : Marked Char Numeral}
    (h : Scanned m (x :: D)) : Scanned m D :=
  ⟨h.separated.tail, fun d hd hi => h.noStray d hd (hi.trans (List.suffix_cons x D).isInfix)⟩

theorem stray_prefix_render {m : Marker} {c d : Char} (hd : d.isDigit = true)
    (D : Marked Char Numeral) :
    m.text ++ [d] <+: render (Numeral.token m) (.inl c :: D) ↔ plain (m.text ++ [d]) <+: .inl c :: D := by
  rw [render_inl_cons, Marker.text, List.cons_append, plain_cons, List.cons_prefix_cons,
    List.cons_prefix_cons, Sum.inl.injEq, prefix_render (Numeral.headApart m ?_)]
  rw [List.mem_append, List.mem_singleton]
  rintro (h | h)
  · exact m.first_notMem h
  · rw [← h, m.first_not_digit] at hd
    cases hd

theorem Scanned.tokenAt_letter {m : Marker} {c : Char} {D : Marked Char Numeral}
    (h : Scanned m (.inl c :: D)) : tokenAt m (c :: render (Numeral.token m) D) = none := by
  rw [← Option.not_isSome_iff_eq_none, tokenAt_isSome_iff]
  rintro ⟨d, hd, hp⟩
  rw [← render_inl_cons, stray_prefix_render hd] at hp
  exact h.noStray d hd hp.isInfix

theorem Scanned.tokenAt_mark {m : Marker} {i : Numeral} {D : Marked Char Numeral}
    (h : Scanned m (.inr i :: D)) :
    tokenAt m (m.text ++ (i.1 ++ render (Numeral.token m) D)) = some i.1 :=
  tokenAt_token m i.2.1 i.2.2 ((Numeral.tokenRender m).head_render h.separated)

theorem Scanned.tokens_eq {m : Marker} {D : Marked Char Numeral} (h : Scanned m D) :
    tokens m (render (Numeral.token m) D) = (marks D).map (Numeral.token m) := by
  induction D with
  | nil => rfl
  | cons x D ih =>
    rcases x with c | i
    · rw [render_inl_cons, tokens, h.tokenAt_letter, ih h.tail]
      rfl
    · rw [render_inr_cons, Numeral.token, List.append_assoc, tokens_token m i.2.1 i.2.2
        ((Numeral.tokenRender m).head_render h.separated), ih h.tail]
      rfl

/-- **Every text is a rendering of a scanned text.** -/
theorem exists_scan (m : Marker) : ∀ s : List Char,
    ∃ D : Marked Char Numeral, render (Numeral.token m) D = s ∧ Scanned m D
  | [] => ⟨[], rfl, List.isChain_nil, fun d _ h => by simp [plain] at h⟩
  | c :: s => by
    cases h : tokenAt m (c :: s) with
    | none =>
      obtain ⟨D, rfl, hD⟩ := exists_scan m s
      refine ⟨.inl c :: D, rfl, ?_, fun d hd hi => ?_⟩
      · rcases D with _ | ⟨x, D⟩
        · exact List.isChain_singleton _
        · exact List.isChain_cons_cons.mpr ⟨fun hx => by simp at hx, hD.separated⟩
      · rcases List.infix_cons_iff.mp hi with hp | hp
        · rw [← stray_prefix_render hd, render_inl_cons] at hp
          have := (tokenAt_isSome_iff m).mpr ⟨d, hd, hp⟩
          rw [h] at this
          cases this
        · exact hD.noStray d hd hp
    | some ds =>
      obtain ⟨hne, hds, r, hr, hhead⟩ := tokenAt_eq_some m h
      have hlen : r.length < s.length + 1 := by
        rw [← List.length_cons, hr]
        simp only [List.length_append, Marker.text, List.length_cons]
        omega
      obtain ⟨D, hDr, hD⟩ := exists_scan m r
      refine ⟨.inr ⟨ds, hne, hds⟩ :: D, ?_, ?_, fun d hd hi => ?_⟩
      · rw [render_inr_cons, hDr, hr, Numeral.token, List.append_assoc]
      · rcases D with _ | ⟨x, D⟩
        · exact List.isChain_singleton _
        · refine List.isChain_cons_cons.mpr ⟨fun _ a ha => ?_, hD.separated⟩
          subst ha
          rw [render_inl_cons] at hDr
          exact hhead a (by rw [← hDr]; rfl)
      · rcases List.infix_cons_iff.mp hi with hp | hp
        · rw [Marker.text, List.cons_append, plain_cons, List.cons_prefix_cons] at hp
          cases hp.1
        · exact hD.noStray d hd hp
termination_by s => s.length

/-! ## Rewriting tokens -/

/-- Change the marks of a marked text. -/
def mapMarks {α ι κ : Type} (g : ι → κ) (D : Marked α ι) : Marked α κ := D.map (Sum.map id g)

@[simp] theorem marks_mapMarks {α ι κ : Type} (g : ι → κ) (D : Marked α ι) :
    marks (mapMarks g D) = (marks D).map g := by
  induction D with
  | nil => rfl
  | cons x D ih =>
    rcases x with c | i
    · exact ih
    · exact congrArg (g i :: ·) ih

theorem render_mapMarks {α ι κ : Type} (f : κ → List α) (g : ι → κ) (D : Marked α ι) :
    render f (mapMarks g D) = render (f ∘ g) D := by
  induction D with
  | nil => rfl
  | cons x D ih =>
    rcases x with c | i
    · exact congrArg (c :: ·) ih
    · exact congrArg (f (g i) ++ ·) ih

theorem plain_prefix_mapMarks {α ι κ : Type} (g : ι → κ) (p : List α) (D : Marked α ι) :
    plain p <+: mapMarks g D ↔ plain p <+: D := by
  induction p generalizing D with
  | nil => simp
  | cons a p ih =>
    rcases D with _ | ⟨c | i, D⟩
    · simp [mapMarks]
    · rw [mapMarks, List.map_cons, plain_cons, plain_cons, List.cons_prefix_cons,
        List.cons_prefix_cons, ← mapMarks, ih]
      simp
    · simp [mapMarks, List.cons_prefix_cons]

theorem plain_infix_mapMarks {α ι κ : Type} (g : ι → κ) (p : List α) (D : Marked α ι) :
    plain p <:+: mapMarks g D ↔ plain p <:+: D := by
  induction D with
  | nil => simp [mapMarks, plain]
  | cons x D ih =>
    have h := plain_prefix_mapMarks g p (x :: D)
    rw [mapMarks, List.map_cons, ← mapMarks] at h ⊢
    rw [List.infix_cons_iff, List.infix_cons_iff, ih, h]

theorem Scanned.mapMarks {m : Marker} {D : Marked Char Numeral} (h : Scanned m D)
    (g : Numeral → Numeral) : Scanned m (mapMarks g D) := by
  refine ⟨?_, fun d hd hi => h.noStray d hd ((plain_infix_mapMarks g _ D).mp hi)⟩
  refine (List.isChain_map _).mpr (h.separated.imp fun x y hxy hx c hc => ?_)
  rcases x with _ | i
  · simp at hx
  rcases y with c' | j
  · have hc' : c' = c := by simpa using hc
    subst hc'
    exact hxy rfl c' rfl
  · simp at hc

/-- Renaming all tokens acts on the marks. -/
theorem renameTokens_render {m : Marker} (g : List Char → List Char) {D : Marked Char Numeral}
    (h : Scanned m D) :
    renameTokens m g (render (Numeral.token m) D) = render (fun d => g d.1) D := by
  induction D with
  | nil => rfl
  | cons x D ih =>
    rcases x with c | i
    · rw [render_inl_cons, renameTokens, rewrite_cons_of_none (by rw [h.tokenAt_letter]; rfl),
        ← renameTokens, ih h.tail, render_inl_cons]
    · rw [render_inr_cons, render_inr_cons, renameTokens, rewrite_append_of_match, ← renameTokens,
        ih h.tail]
      · exact List.cons_ne_nil _ _
      · rw [Numeral.token, List.append_assoc, h.tokenAt_mark]
        simp

theorem prefix_append_iff_of_digits {x y r : List Char} (hx : ∀ c ∈ x, c.isDigit = true)
    (hr : ∀ c ∈ r.head?, c.isDigit = false) : x <+: y ++ r ↔ x <+: y := by
  refine ⟨fun h => ?_, fun h => h.trans (List.prefix_append y r)⟩
  rcases List.prefix_or_prefix_of_prefix h (List.prefix_append y r) with h' | ⟨z, rfl⟩
  · exact h'
  · rcases z with _ | ⟨c, z⟩
    · simp
    · obtain ⟨w, hw⟩ := (List.prefix_append_right_inj y).mp h
      have h1 := hx c (by simp)
      rw [hr c (by rw [← hw]; rfl)] at h1
      cases h1

/-- A token with its leading digits `x` replaced by `y`. -/
def Numeral.replaceLead (x y : Numeral) (d : Numeral) : Numeral :=
  if x.1 <+: d.1 then ⟨y.1 ++ d.1.drop x.1.length, by simp [y.2.1], fun c hc => by
    rcases List.mem_append.mp hc with hc | hc
    · exact y.2.2 c hc
    · exact d.2.2 c (List.mem_of_mem_drop hc)⟩
  else d

theorem replace_token_append {m : Marker} (x y : Numeral) {z : List Char} (hz : m.first ∉ z)
    (s : List Char) : replace (x.token m) (y.token m) (z ++ s) =
      z ++ replace (x.token m) (y.token m) s := replace_append_of_notMem hz

theorem first_notMem_drop {m : Marker} (d : Numeral) : m.first ∉ (d.token m).tail := by
  rw [Numeral.token, Marker.text, List.cons_append, List.tail_cons, List.mem_append, not_or]
  exact ⟨m.first_notMem, m.first_notMem_digits d.2.2⟩

/-- **Replacing the text of one token** by that of another changes every token that starts with its
digits, and nothing else. -/
theorem replace_render_token {m : Marker} (x y : Numeral) {D : Marked Char Numeral}
    (h : Scanned m D) :
    replace (x.token m) (y.token m) (render (Numeral.token m) D) =
      render (Numeral.token m) (Lib.mapMarks (Numeral.replaceLead x y) D) := by
  have hne : x.token m ≠ [] := List.cons_ne_nil _ _
  induction D with
  | nil => exact replace_nil hne
  | cons e D ih =>
    rcases e with c | i
    · have hnot : ¬ x.token m <+: c :: render (Numeral.token m) D := by
        intro hp
        obtain ⟨a, ds, hds⟩ := List.exists_cons_of_ne_nil x.2.1
        have ha : m.text ++ [a] <+: x.token m := ⟨ds, by rw [Numeral.token, hds]; simp⟩
        have := (tokenAt_isSome_iff m).mpr
          ⟨a, x.2.2 a (by rw [hds]; exact List.mem_cons_self), ha.trans hp⟩
        rw [h.tokenAt_letter] at this
        cases this
      rw [render_inl_cons, replace_cons_of_not hne hnot, ih h.tail]
      rfl
    · have hhead := (Numeral.tokenRender m).head_render h.separated
      rw [Lib.mapMarks, List.map_cons, Sum.map_inr, ← Lib.mapMarks, render_inr_cons,
        render_inr_cons, ← ih h.tail, Numeral.replaceLead]
      split_ifs with hp
      · obtain ⟨r, hr⟩ := hp
        have hi : i.token m = x.token m ++ r := by
          rw [Numeral.token, Numeral.token, ← hr, List.append_assoc]
        have hrd : m.first ∉ r := m.first_notMem_digits fun c hc => i.2.2 c (by
          rw [← hr]; exact List.mem_append_right _ hc)
        rw [hi, List.append_assoc, replace_append hne, replace_token_append x y hrd]
        simp only [← hr, List.drop_left, Numeral.token, List.append_assoc]
      · have hpre : ¬ x.token m <+: i.token m ++ render (Numeral.token m) D := by
          rw [Numeral.token, Numeral.token, List.append_assoc, List.prefix_append_right_inj,
            prefix_append_iff_of_digits x.2.2 hhead]
          exact hp
        have htok : i.token m = m.first :: (i.token m).tail := rfl
        rw [htok, List.cons_append] at hpre ⊢
        rw [replace_cons_of_not hne hpre, replace_token_append x y (first_notMem_drop i),
          List.cons_append]

/-! ## Tokens across a seam -/

theorem mapMarks_plain_append {α ι κ : Type} (g : ι → κ) (x : List α) (D : Marked α ι) :
    mapMarks g (plain x ++ D) = plain x ++ mapMarks g D := by
  simp [mapMarks, plain]

theorem takeWhile_digit_render_mapMarks (m : Marker) (g : Numeral → Numeral)
    (D : Marked Char Numeral) :
    (render (Numeral.token m) (mapMarks g D)).takeWhile Char.isDigit =
      (render (Numeral.token m) D).takeWhile Char.isDigit := by
  induction D with
  | nil => rfl
  | cons x D ih =>
    rw [mapMarks, List.map_cons, ← mapMarks]
    rcases x with c | i
    · rw [Sum.map_inl, render_inl_cons, render_inl_cons, List.takeWhile_cons, List.takeWhile_cons, ih]
      rfl
    · simp [Numeral.token, Marker.text, m.first_not_digit]

theorem tokenAt_render_mapMarks (m : Marker) (g : Numeral → Numeral) (c : Char)
    (D : Marked Char Numeral) :
    tokenAt m (c :: render (Numeral.token m) (mapMarks g D)) =
      tokenAt m (c :: render (Numeral.token m) D) := by
  have hpre : ∀ E : Marked Char Numeral, m.text <+: c :: render (Numeral.token m) E ↔
      plain m.text <+: .inl c :: E := by
    intro E
    rw [Marker.text, plain_cons, List.cons_prefix_cons, List.cons_prefix_cons, Sum.inl.injEq,
      prefix_render (Numeral.headApart m m.first_notMem)]
  have hmap : mapMarks g (.inl c :: D) = .inl c :: mapMarks g D := rfl
  by_cases h : plain m.text <+: (.inl c :: D : Marked Char Numeral)
  · have h' : plain m.text <+: .inl c :: mapMarks g D := by
      rwa [← hmap, plain_prefix_mapMarks]
    rw [tokenAt, tokenAt, if_pos ((hpre _).mpr h), if_pos ((hpre _).mpr h')]
    obtain ⟨F, hF⟩ := h
    have hr : c :: render (Numeral.token m) D = m.text ++ render (Numeral.token m) F := by
      rw [← render_inl_cons, ← hF, render_append, render_plain]
    have hr' : c :: render (Numeral.token m) (mapMarks g D) =
        m.text ++ render (Numeral.token m) (mapMarks g F) := by
      rw [← render_inl_cons, ← hmap, ← hF, mapMarks_plain_append, render_append, render_plain]
    rw [hr, hr', List.drop_left, List.drop_left, takeWhile_digit_render_mapMarks]
  · have h' : ¬ plain m.text <+: .inl c :: mapMarks g D := by
      rwa [← hmap, plain_prefix_mapMarks]
    rw [tokenAt, tokenAt, if_neg (mt (hpre _).mp h), if_neg (mt (hpre _).mp h')]

theorem tokensIn_render_mapMarks (m : Marker) (g : Numeral → Numeral) (D : Marked Char Numeral)
    (a : List Char) : tokensIn m a (render (Numeral.token m) (mapMarks g D)) =
      tokensIn m a (render (Numeral.token m) D) := by
  induction a with
  | nil => rfl
  | cons c a ih =>
    have h := tokenAt_render_mapMarks m g c (plain a ++ D)
    rw [mapMarks_plain_append, render_append, render_append, render_plain] at h
    rw [tokensIn, tokensIn, ih, List.cons_append, List.cons_append, h]

end ChimesUtils.Lib
