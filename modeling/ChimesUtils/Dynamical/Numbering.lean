import ChimesUtils.Dynamical.Draft

/-!
# Numbering of the slots

What the edits do to the slots, the letters and the spacing of a draft. Each part has a spec lemma
for one edit and a run lemma for a list of edits:

* `Edit.marks_draft`, `Edit.args_draft`: an edit adds its own slots and arguments at the end and
  keeps the others; `Draft.Numbered`: the slots read `0, 1, …` from left to right;
* `Edit.mem_draft`: where the letters of an edited draft come from; `Draft.Avoids`: no letter of a
  draft is in a given list;
* `Draft.Spaced`: no slot is directly followed by a digit.
-/

namespace ChimesUtils

open Lib

/-! ## Templates -/

/-- The place of the data in a format template. -/
abbrev hole : Text := ['{', '}']

/-- Every format template of a column satisfies `P`. -/
def TemplatesAre (P : Text → Prop) (formats : Text → Option Text) : Prop :=
  ∀ column source, formats column = some source → P source

/-- The templates an edit sets satisfy `P`. -/
def Edit.Templates (P : Text → Prop) : Edit → Prop
  | .setFormats f => TemplatesAre P f
  | _ => True

theorem Edit.Templates.imp {P Q : Text → Prop} {e : Edit} (h : e.Templates P)
    (hPQ : ∀ s, P s → Q s) : e.Templates Q := by
  cases e with
  | setFormats f => exact fun c s hs => hPQ s (h c s hs)
  | _ => trivial

theorem Edit.formats_draft (R : Rbatis) {P : Text → Prop} {D : Draft} (hD : TemplatesAre P D.formats)
    {e : Edit} (he : e.Templates P) : TemplatesAre P (e.draft R D).formats := by
  cases e with
  | setFormats f => exact he
  | connect k =>
    rw [Edit.draft]
    split_ifs <;> exact hD
  | _ => exact hD

/-- A template with one hole is written around the data. -/
theorem Draft.format_eq {D : Draft} (hD : TemplatesAre (OccursOnce hole) D.formats) (column : Text) :
    ∃ a b, (∀ E, D.format column E = plain a ++ E ++ plain b) ∧
      (a = [] ∧ b = [] ∨ D.formats column = some (a ++ hole ++ b)) := by
  cases h : D.formats column with
  | none =>
    refine ⟨[], [], fun E => ?_, Or.inl ⟨rfl, rfl⟩⟩
    rw [Draft.format, h]
    simp
  | some source =>
    obtain ⟨a, b, hs, -⟩ := (hD column source h).replace_eq (by decide)
    obtain ⟨a', b', hs', hr⟩ := ((hD column source h).map Sum.inl_injective).replace_eq
      (show (.inl '{' : Char ⊕ Slot) ≠ .inl '}' by decide)
    obtain ⟨a, rfl⟩ : ∃ a, a' = plain a := by
      obtain ⟨x, y, -, hx, -⟩ := List.append_eq_map_iff.mp
        (show a' ++ ([.inl '{', .inl '}'] ++ b') = source.map Sum.inl by rw [hs']; simp)
      exact ⟨x, hx.symm⟩
    obtain ⟨b, rfl⟩ : ∃ b, b' = plain b := by
      obtain ⟨x, y, -, -, hy⟩ := List.append_eq_map_iff.mp
        (show (plain a ++ [.inl '{', .inl '}']) ++ b' = source.map Sum.inl by rw [hs'])
      exact ⟨y, hy.symm⟩
    refine ⟨a, b, fun E => ?_, Or.inr ?_⟩
    · rw [Draft.format, h]
      exact hr E
    · have := congrArg letters hs'
      rw [show source.map Sum.inl = (plain source : Marked Char Slot) from rfl] at this
      rw [letters_plain] at this
      rw [this]
      simp

/-! ## Slots and arguments -/

/-- The arguments an edit adds. -/
def Edit.values : Edit → List Bson
  | .bind _ v => [v]
  | .raw _ vs => vs
  | _ => []

/-- The slots an edit adds, at `n` arguments. -/
def Edit.slots (n : ℕ) : Edit → List Slot
  | .bind _ _ => [⟨n, false⟩]
  | .raw t vs => marks (Draft.rawPieces n vs.length t)
  | _ => []

/-- A raw edit has as many `?` marks as arguments. -/
def Edit.Filled : Edit → Prop
  | .raw t vs => t.count '?' = vs.length
  | _ => True

theorem Edit.args_draft (R : Rbatis) (e : Edit) (D : Draft) :
    (e.draft R D).args = D.args ++ e.values := by
  cases e with
  | connect k =>
    rw [Edit.draft]
    split_ifs <;> simp [Draft.write, Edit.values]
  | bind c v => rfl
  | raw t vs => rfl
  | _ => simp [Edit.draft, Draft.write, Edit.values]

theorem Edit.args_draftAll (R : Rbatis) (es : List Edit) (D : Draft) :
    (Edit.draftAll R es D).args = D.args ++ es.flatMap Edit.values := by
  induction es generalizing D with
  | nil => simp [Edit.draftAll]
  | cons e es ih =>
    rw [Edit.draftAll, List.foldl_cons, ← Edit.draftAll, ih, Edit.args_draft, List.flatMap_cons,
      List.append_assoc]

theorem marks_trimTail {R : Rbatis} (hT : R.template.Plain) (E : Marked Char Slot) :
    marks (Draft.trimTail R E) = marks E := by
  have h : ∀ k ∈ R.template.keywords, ∀ E : Marked Char Slot,
      marks (trimEndMatches (plain k.leftSpace) E) = marks E := fun k hk =>
    marks_trimEndMatches (hT.leftSpace hk).1
  rw [Draft.trimTail, h _ (by simp [Template.keywords]), h _ (by simp [Template.keywords]),
    h _ (by simp [Template.keywords])]

/-- **Slots.** An edit adds its slots at the end and keeps the others. -/
theorem Edit.marks_draft {R : Rbatis} (hT : R.template.Plain) {D : Draft}
    (hD : TemplatesAre (OccursOnce hole) D.formats) (e : Edit) :
    marks (e.draft R D).pieces = marks D.pieces ++ e.slots D.args.length := by
  cases e with
  | connect k =>
    rw [Edit.draft]
    split_ifs <;> simp [Draft.write, Edit.slots]
  | write t => simp [Edit.draft, Draft.write, Edit.slots]
  | bind c v =>
    obtain ⟨a, b, hf, -⟩ := D.format_eq hD c
    simp [Edit.draft, Draft.write, Edit.slots, hf]
  | trimEnd => simp [Edit.draft, Edit.slots, marks_rdropWhile]
  | trim => simp [Edit.draft, Edit.slots, marks_rdropWhile, marks_dropWhile]
  | trimTail => simp [Edit.draft, Edit.slots, marks_trimTail hT]
  | squeeze =>
    refine Eq.trans ?_ (List.append_nil _).symm
    exact marks_replace (p := [' ', ' ']) (by simp) [' '] D.pieces
  | raw t vs => rw [Edit.draft, Draft.write, marks_append, Edit.slots]
  | setFormats f => simp [Edit.draft, Edit.slots]

theorem Edit.draftAll_built {R : Rbatis} (hT : R.template.Plain) {es : List Edit}
    (hes : ∀ e ∈ es, (∀ t vs, e ≠ .raw t vs) ∧ e.Templates (OccursOnce hole)) {D : Draft}
    (hD : TemplatesAre (OccursOnce hole) D.formats) (h : ∀ s ∈ marks D.pieces, s.raw = false) :
    ∀ s ∈ marks (Edit.draftAll R es D).pieces, s.raw = false := by
  induction es generalizing D with
  | nil => exact h
  | cons e es ih =>
    rw [List.forall_mem_cons] at hes
    obtain ⟨⟨hraw, ht⟩, hes⟩ := hes
    refine ih hes (Edit.formats_draft R hD ht) fun s hs => ?_
    rw [Edit.marks_draft hT hD, List.mem_append] at hs
    rcases hs with hs | hs
    · exact h s hs
    · cases e with
      | bind c v => rw [List.mem_singleton.mp hs]
      | raw t vs => exact absurd rfl (hraw t vs)
      | _ => cases hs

theorem marks_rawPieces {n k : ℕ} {t : Text} (h : t.count '?' = k) :
    marks (Draft.rawPieces n k t) = (List.range' n k).map fun i => ⟨i, true⟩ := by
  induction t generalizing n k with
  | nil =>
    subst h
    rfl
  | cons c t ih =>
    by_cases hc : c = '?'
    · subst hc
      rw [List.count_cons_self] at h
      subst h
      rw [Draft.rawPieces, if_pos rfl, marks_inr_cons, ih rfl, List.range'_succ, List.map_cons]
    · rw [List.count_cons_of_ne hc] at h
      rcases k with _ | k
      · rw [Draft.rawPieces, marks_inl_cons, ih h]
      · rw [Draft.rawPieces, if_neg hc, marks_inl_cons, ih h]

theorem Edit.index_slots {e : Edit} (he : e.Filled) (n : ℕ) :
    (e.slots n).map Slot.index = List.range' n e.values.length := by
  cases e with
  | raw t vs =>
    rw [Edit.slots, marks_rawPieces he, List.map_map]
    exact List.map_id _
  | _ => rfl

/-- Whether an edit writes raw text. -/
def Edit.isRaw : Edit → Bool
  | .raw _ _ => true
  | _ => false

theorem Edit.raw_slots {e : Edit} (he : e.Filled) (n : ℕ) :
    (e.slots n).map Slot.raw = List.replicate e.values.length e.isRaw := by
  cases e with
  | raw t vs =>
    rw [Edit.slots, marks_rawPieces he, List.map_map, Edit.isRaw, Edit.values]
    exact List.map_const'.trans (by rw [List.length_range'])
  | _ => rfl

namespace Draft

/-- The slots of the draft read `0, 1, …` from left to right, one for each argument. -/
structure Numbered (D : Draft) : Prop where
  index : (marks D.pieces).map Slot.index = List.range D.args.length
  templates : TemplatesAre (OccursOnce hole) D.formats

theorem numbered_new : Draft.new.Numbered := ⟨rfl, fun _ _ h => nomatch h⟩

variable {R : Rbatis}

theorem Numbered.apply (hT : R.template.Plain) {D : Draft} (h : D.Numbered) {e : Edit}
    (he : e.Filled) (ht : e.Templates (OccursOnce hole)) : (e.draft R D).Numbered := by
  refine ⟨?_, Edit.formats_draft R h.templates ht⟩
  rw [Edit.marks_draft hT h.templates, List.map_append, h.index, Edit.index_slots he,
    Edit.args_draft, List.length_append, List.range_eq_range', List.range_eq_range',
    ← List.range'_append_1, Nat.zero_add]

theorem Numbered.raw_applyAll (hT : R.template.Plain) {D : Draft} (h : D.Numbered) {es : List Edit}
    (he : ∀ e ∈ es, e.Filled ∧ e.Templates (OccursOnce hole)) :
    (marks (Edit.draftAll R es D).pieces).map Slot.raw = (marks D.pieces).map Slot.raw ++
      es.flatMap fun e => List.replicate e.values.length e.isRaw := by
  induction es generalizing D with
  | nil => simp [Edit.draftAll]
  | cons e es ih =>
    rw [List.forall_mem_cons] at he
    rw [Edit.draftAll, List.foldl_cons, ← Edit.draftAll, ih (h.apply hT he.1.1 he.1.2) he.2,
      Edit.marks_draft hT h.templates, List.map_append, Edit.raw_slots he.1.1, List.flatMap_cons,
      List.append_assoc]

/-- **Any list of edits keeps the numbering.** -/
theorem Numbered.applyAll (hT : R.template.Plain) {D : Draft} (h : D.Numbered) {es : List Edit}
    (he : ∀ e ∈ es, e.Filled ∧ e.Templates (OccursOnce hole)) : (Edit.draftAll R es D).Numbered := by
  induction es generalizing D with
  | nil => exact h
  | cons e es ih =>
    rw [List.forall_mem_cons] at he
    exact ih (h.apply hT he.1.1 he.1.2) he.2

end Draft

/-! ## Letters -/

/-- The letters an edit writes itself. -/
def Edit.letters : Edit → Text
  | .connect k => k
  | .write t => t
  | .squeeze => [' ']
  | .raw t vs => Lib.letters (Draft.rawPieces 0 vs.length t)
  | _ => []

theorem letters_rawPieces (n m k : ℕ) (t : Text) :
    letters (Draft.rawPieces n k t) = letters (Draft.rawPieces m k t) := by
  induction t generalizing n m k with
  | nil => cases k <;> rfl
  | cons c t ih =>
    rcases k with _ | k
    · rw [Draft.rawPieces, Draft.rawPieces, letters_inl_cons, letters_inl_cons, ih]
    · rw [Draft.rawPieces, Draft.rawPieces]
      split_ifs
      · rw [letters_inr_cons, letters_inr_cons, ih]
      · rw [letters_inl_cons, letters_inl_cons, ih]

theorem trimTail_isPrefix (R : Rbatis) (E : Marked Char Slot) : Draft.trimTail R E <+: E :=
  ((trimEndMatches_isPrefix _ _).trans (trimEndMatches_isPrefix _ _)).trans (trimEndMatches_isPrefix _ _)

/-- **Letters.** A letter of an edited draft was there, or is one of the edit or of a template. -/
theorem Edit.mem_draft {R : Rbatis} {D : Draft} (hD : TemplatesAre (OccursOnce hole) D.formats)
    {e : Edit} {x : Char} (hx : x ∈ Lib.letters (e.draft R D).pieces) :
    x ∈ Lib.letters D.pieces ∨ x ∈ e.letters ∨
      ∃ column source, D.formats column = some source ∧ x ∈ source := by
  have hsub : ∀ {E : Marked Char Slot}, E <:+: D.pieces → x ∈ Lib.letters E →
      x ∈ Lib.letters D.pieces := fun hE hxE => letters_subset_of_infix hE hxE
  have hwrite : ∀ E, x ∈ Lib.letters (D.write E).pieces → x ∈ Lib.letters D.pieces ∨
      x ∈ Lib.letters E := fun E h => by rwa [Draft.write, letters_append, List.mem_append] at h
  cases e with
  | connect k =>
    rw [Edit.draft] at hx
    split_ifs at hx
    · exact Or.inl hx
    · exact (hwrite _ hx).imp_right fun h => Or.inl (by rwa [letters_plain] at h)
  | write t => exact (hwrite _ hx).imp_right fun h => Or.inl (by rwa [letters_plain] at h)
  | bind c v =>
    refine (hwrite _ hx).imp_right fun h => Or.inr ?_
    obtain ⟨a, b, hf, ⟨rfl, rfl⟩ | hs⟩ := D.format_eq hD c
    · rw [hf] at h
      simp at h
    · refine ⟨c, _, hs, ?_⟩
      rw [hf, letters_append, letters_append, letters_plain, letters_plain] at h
      simp only [List.mem_append, letters_inr_cons, letters_nil, List.not_mem_nil, or_false] at h ⊢
      exact h.imp_left Or.inl
  | trimEnd => exact Or.inl (hsub (List.rdropWhile_prefix _ _).isInfix hx)
  | trim =>
    exact Or.inl (hsub ((List.rdropWhile_prefix _ _).isInfix.trans
      (List.dropWhile_suffix _).isInfix) hx)
  | trimTail => exact Or.inl (hsub (trimTail_isPrefix R _).isInfix hx)
  | squeeze =>
    rw [mem_letters] at hx
    have hne : (plain [' ', ' '] : Marked Char Slot) ≠ [] := List.cons_ne_nil _ _
    rcases mem_of_mem_replace hne hx with h | h
    · exact Or.inl (mem_letters.mpr h)
    · refine Or.inr (Or.inl ?_)
      rw [← mem_letters, letters_plain] at h
      exact h
  | raw t vs =>
    refine (hwrite _ hx).imp_right fun h => Or.inl ?_
    rwa [letters_rawPieces _ 0] at h
  | setFormats f => exact Or.inl hx

/-- No letter of the text is in the list. -/
def Avoids (bad : List Char) (t : Text) : Prop := ∀ x ∈ t, x ∉ bad

theorem Avoids.append {bad : List Char} {s t : Text} (hs : Avoids bad s) (ht : Avoids bad t) :
    Avoids bad (s ++ t) := List.forall_mem_append.mpr ⟨hs, ht⟩

/-- A template with one hole that avoids the list. -/
def CleanTemplate (bad : List Char) (source : Text) : Prop := OccursOnce hole source ∧ Avoids bad source

namespace Draft

/-- No letter of the draft or of its templates is in the list. -/
structure Clean (bad : List Char) (D : Draft) : Prop where
  letters : Avoids bad (letters D.pieces)
  templates : TemplatesAre (CleanTemplate bad) D.formats

theorem clean_new (bad : List Char) : Draft.new.Clean bad :=
  ⟨List.forall_mem_nil _, fun _ _ h => nomatch h⟩

variable {R : Rbatis} {bad : List Char}

theorem Clean.apply {D : Draft} (h : D.Clean bad) {e : Edit} (he : Avoids bad e.letters)
    (ht : e.Templates (CleanTemplate bad)) : (e.draft R D).Clean bad := by
  refine ⟨fun x hx => ?_, Edit.formats_draft R h.templates ht⟩
  rcases Edit.mem_draft (fun c s hs => (h.templates c s hs).1) hx with h1 | h1 | ⟨c, s, hs, h1⟩
  · exact h.letters x h1
  · exact he x h1
  · exact (h.templates c s hs).2 x h1

theorem Clean.applyAll {D : Draft} (h : D.Clean bad) {es : List Edit}
    (he : ∀ e ∈ es, Avoids bad e.letters ∧ e.Templates (CleanTemplate bad)) :
    (Edit.draftAll R es D).Clean bad := by
  induction es generalizing D with
  | nil => exact h
  | cons e es ih =>
    rw [List.forall_mem_cons] at he
    exact ih (h.apply he.1.1 he.1.2) he.2

end Draft

/-! ## Spacing -/

/-- No digit directly after the hole. -/
def Undigited (source : Text) : Prop := ∀ c, c.isDigit = true → ¬ hole ++ [c] <:+: source

/-- Whether a draft may end with a slot; `true` says that it does not. -/
def Edit.opens (o : Bool) : Edit → Bool
  | .connect _ => true
  | .write t => o || !t.isEmpty
  | .setFormats _ => o
  | _ => false

/-- The edit puts no digit after a slot, in a draft that is open or not. -/
def Edit.Fits (o : Bool) : Edit → Prop
  | .connect k => k ≠ [] ∧ ∀ c ∈ k, c.isDigit = false
  | .write t => o = true ∨ ∀ c ∈ t.head?, c.isDigit = false
  | .bind _ _ => o = true
  | .raw t _ => (o = true ∨ ∀ c ∈ t.head?, c.isDigit = false) ∧
      ∀ c, c.isDigit = true → ¬ ['?', c] <:+: t
  | _ => True

/-- Every edit of the list fits where it stands. -/
def Edit.AllFit : Bool → List Edit → Prop
  | _, [] => True
  | o, e :: es => e.Fits o ∧ Edit.AllFit (e.opens o) es

theorem Edit.Fits.mono {e : Edit} {o : Bool} (h : e.Fits false) : e.Fits o := by
  cases e with
  | write t => exact Or.inr (h.resolve_left (by simp))
  | bind c v => cases h
  | raw t vs => exact ⟨Or.inr (h.1.resolve_left (by simp)), h.2⟩
  | _ => exact h

theorem Edit.AllFit.mono {es : List Edit} {o : Bool} (h : Edit.AllFit false es) :
    Edit.AllFit o es := by
  induction es generalizing o with
  | nil => trivial
  | cons e es ih =>
    refine ⟨h.1.mono, ?_⟩
    have h2 := h.2
    cases e with
    | write t =>
      rcases o
      · exact h2
      · cases t with
        | nil => exact ih h2
        | cons c t => exact h2
    | setFormats f => exact ih h2
    | _ => exact h2

theorem Edit.AllFit.append {es fs : List Edit} {o : Bool} (he : Edit.AllFit o es)
    (hf : Edit.AllFit false fs) : Edit.AllFit o (es ++ fs) := by
  induction es generalizing o with
  | nil => exact hf.mono
  | cons e es ih => exact ⟨he.1, ih he.2⟩

theorem Edit.allFit_flatMap {α : Type} {f : α → List Edit} {xs : List α}
    (h : ∀ x ∈ xs, Edit.AllFit false (f x)) : Edit.AllFit false (xs.flatMap f) := by
  induction xs with
  | nil => trivial
  | cons x xs ih =>
    rw [List.forall_mem_cons] at h
    exact h.1.append (ih h.2)

theorem separated_rawPieces {n k : ℕ} {t : Text}
    (ht : ∀ c, c.isDigit = true → ¬ ['?', c] <:+: t) :
    Separated Char.isDigit (Draft.rawPieces n k t) := by
  induction t generalizing n k with
  | nil => cases k <;> exact List.isChain_nil
  | cons c t ih =>
    have ih' : ∀ n k, Separated Char.isDigit (Draft.rawPieces n k t) := fun n k =>
      ih fun d hd hi => ht d hd (hi.trans (List.suffix_cons c t).isInfix)
    rcases k with _ | k
    · exact (ih' n 0).of_head fun h => by simp at h
    · rw [Draft.rawPieces]
      split_ifs with hc
      · refine (ih' _ _).of_head fun _ d hd => ?_
        rw [← Bool.not_eq_true]
        intro hdig
        refine ht d hdig (hc ▸ ?_)
        rcases t with _ | ⟨x, t⟩
        · cases k <;> cases hd
        · have hx : x = d := by
            rcases k with _ | k
            · simpa [Draft.rawPieces] using hd
            · rw [Draft.rawPieces] at hd
              split_ifs at hd
              · cases hd
              · simpa using hd
          rw [hx]
          exact ⟨[], t, rfl⟩
      · exact (ih' n (k + 1)).of_head fun h => by simp at h

theorem head_rawPieces {n k : ℕ} {t : Text} {c : Char}
    (h : (Draft.rawPieces n k t).head? = some (.inl c)) : t.head? = some c := by
  rcases t with _ | ⟨x, t⟩
  · cases k <;> cases h
  · rcases k with _ | k
    · simpa [Draft.rawPieces] using h
    · rw [Draft.rawPieces] at h
      split_ifs at h
      · cases h
      · simpa using h

namespace Draft

/-- No slot is directly followed by a digit; with `o = true` the draft does not end with a slot. -/
structure Spaced (o : Bool) (D : Draft) : Prop where
  separated : Separated Char.isDigit D.pieces
  opened : o = true → ∀ s, D.pieces.getLast? ≠ some (.inr s)

theorem spaced_new (o : Bool) : Draft.new.Spaced o := ⟨List.isChain_nil, fun _ _ h => nomatch h⟩

variable {R : Rbatis}

theorem not_blocked_of_getLast (hT : R.template.Plain) {D : Draft} {s : Slot}
    (h : D.pieces.getLast? = some (.inr s)) : D.blocked R = false := by
  obtain ⟨E, hE⟩ := List.getLast?_eq_some_iff.mp h
  have hdrop : D.pieces.rdropWhile blank = E ++ [.inr s] := by
    rw [hE]
    exact List.rdropWhile_concat_neg _ _ _ (by simp [blank])
  rw [blocked, hdrop]
  simp only [List.isEmpty_eq_false_iff, ne_eq, List.append_eq_nil_iff, List.cons_ne_nil, and_false,
    not_false_eq_true, List.any_eq_false, decide_eq_true_eq, Bool.or_eq_false_iff]
  refine ⟨by simp, fun p hp => ?_⟩
  have hp' : p ≠ [] := by
    simp only [DynamicWrapper.stops, List.mem_cons, List.not_mem_nil, or_false] at hp
    rcases hp with rfl | rfl | rfl | hp
    · exact (hT.leftSpace (by simp [Template.keywords])).1
    · exact (hT.leftSpace (by simp [Template.keywords])).1
    · exact (hT.leftSpace (by simp [Template.keywords])).1
    · rcases hp with rfl | rfl | rfl | rfl | rfl | rfl | rfl | rfl | rfl | rfl | rfl | rfl | rfl <;>
      exact List.cons_ne_nil _ _
  rintro ⟨F, hF⟩
  have hlast := congrArg List.getLast? hF
  rw [List.getLast?_concat, List.getLast?_append_of_ne_nil _ (plain_ne_nil hp')] at hlast
  have := List.mem_of_getLast? hlast
  simp [plain] at this

theorem Spaced.write {o : Bool} {D : Draft} (h : D.Spaced o) {t : Text}
    (ht : o = true ∨ ∀ c ∈ t.head?, c.isDigit = false) :
    (D.write (plain t)).Spaced (o || !t.isEmpty) := by
  refine ⟨h.separated.append (separated_plain _ t) ?_, fun ho s hs => ?_⟩
  · refine ht.imp h.opened fun ht c hc => ht c ?_
    cases t with
    | nil => cases hc
    | cons x t => simpa [plain] using hc
  · rcases t with _ | ⟨c, t⟩
    · exact h.opened (by simpa using ho) s (by simpa [Draft.write] using hs)
    · rw [Draft.write, List.getLast?_append_of_ne_nil _ (plain_ne_nil (List.cons_ne_nil c t))] at hs
      have := List.mem_of_getLast? hs
      simp [plain] at this

theorem Spaced.of_isInfix {o : Bool} {D : Draft} (h : D.Spaced o) {E : Marked Char Slot}
    (hE : E <:+: D.pieces) : Spaced false { D with pieces := E } :=
  ⟨h.separated.of_isInfix hE, fun h => absurd h Bool.false_ne_true⟩

theorem Spaced.apply (hT : R.template.Plain) {o : Bool} {D : Draft} (h : D.Spaced o)
    (hD : TemplatesAre (fun s => OccursOnce hole s ∧ Undigited s) D.formats) {e : Edit}
    (he : e.Fits o) : (e.draft R D).Spaced (e.opens o) := by
  cases e with
  | connect k =>
    rw [Edit.draft]
    split_ifs with hb
    · refine ⟨h.separated, fun _ s hs => ?_⟩
      rw [not_blocked_of_getLast hT hs] at hb
      cases hb
    · have := h.write (Or.inr fun c hc => he.2 c (List.mem_of_mem_head? hc))
      have hk : (!k.isEmpty) = true := by simpa using he.1
      rwa [hk, Bool.or_true] at this
  | write t => exact h.write he
  | bind c v =>
    refine ⟨?_, fun h => absurd h Bool.false_ne_true⟩
    obtain ⟨a, b, hf, hab⟩ := D.format_eq (fun c s hs => (hD c s hs).1) c
    have hb : ∀ x ∈ b.head?, x.isDigit = false := by
      intro x hx
      rw [← Bool.not_eq_true]
      intro hdig
      obtain ⟨b, rfl⟩ : ∃ r, b = x :: r := List.head?_eq_some_iff.mp hx
      rcases hab with ⟨-, hb⟩ | hs
      · cases hb
      · exact (hD c _ hs).2 x hdig ⟨a, b, by simp⟩
    have hslot : Separated Char.isDigit (.inr ⟨D.args.length, false⟩ :: plain b : Marked Char Slot) :=
      (separated_plain _ b).of_head fun _ x hx => hb x (by
        cases b with
        | nil => cases hx
        | cons y b => simpa [plain] using hx)
    have hformat : Separated Char.isDigit (D.format c [.inr ⟨D.args.length, false⟩]) := by
      rw [hf, List.append_assoc]
      refine (separated_plain _ a).append hslot (Or.inr fun x hx => ?_)
      cases hx
    exact h.separated.append hformat (Or.inl (h.opened he))
  | trimEnd => exact h.of_isInfix (List.rdropWhile_prefix _ _).isInfix
  | trim =>
    exact h.of_isInfix ((List.rdropWhile_prefix _ _).isInfix.trans (List.dropWhile_suffix _).isInfix)
  | trimTail => exact h.of_isInfix (trimTail_isPrefix R _).isInfix
  | squeeze =>
    exact ⟨h.separated.replace (p := [' ', ' ']) (by simp) rfl, fun h => absurd h Bool.false_ne_true⟩
  | raw t vs =>
    refine ⟨h.separated.append (separated_rawPieces he.2) (he.1.imp h.opened fun hhead c hc => ?_),
      fun h => absurd h Bool.false_ne_true⟩
    exact hhead c (head_rawPieces hc)
  | setFormats f => exact ⟨h.separated, h.opened⟩

theorem templates_applyAll {P : Text → Prop} {D : Draft} (hD : TemplatesAre P D.formats)
    {es : List Edit} (ht : ∀ e ∈ es, e.Templates P) :
    TemplatesAre P (Edit.draftAll R es D).formats := by
  induction es generalizing D with
  | nil => exact hD
  | cons e es ih =>
    rw [List.forall_mem_cons] at ht
    exact ih (Edit.formats_draft R hD ht.1) ht.2

/-- **Fitting edits keep every slot apart from digits.** -/
theorem Spaced.applyAll (hT : R.template.Plain) {o : Bool} {D : Draft} (h : D.Spaced o)
    (hD : TemplatesAre (fun s => OccursOnce hole s ∧ Undigited s) D.formats) {es : List Edit}
    (hes : Edit.AllFit o es)
    (ht : ∀ e ∈ es, e.Templates fun s => OccursOnce hole s ∧ Undigited s) :
    Separated Char.isDigit (Edit.draftAll R es D).pieces := by
  induction es generalizing D o with
  | nil => exact h.separated
  | cons e es ih =>
    rw [List.forall_mem_cons] at ht
    exact ih (h.apply hT hD hes.1) (Edit.formats_draft R hD ht.1) hes.2 ht.2

end Draft

end ChimesUtils
