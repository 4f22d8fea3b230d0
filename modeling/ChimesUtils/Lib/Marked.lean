import ChimesUtils.Lib.Rewrite

/-!
# Marked texts

A marked text is a text in which some places are taken by marks. `render f` writes `f i` for the
mark `i`, so one marked text has many renderings. Editing that looks only at letters no mark is
rendered with does the same on the marked text and on each of its renderings:

* `prefix_render`, `suffix_render`: finding a pattern at an end;
* `trimStartMatches_render`, `trimEndMatches_render`, `dropWhile_render`, `rdropWhile_render`;
* `replace_render`: replacing a pattern.

`marks` and `letters` read a marked text, and `Apart f p` says that `f` renders no mark with a
letter of `p`.
-/

namespace ChimesUtils.Lib

variable {α ι : Type}

/-- A text in which marks `ι` stand between letters `α`. -/
abbrev Marked (α ι : Type) := List (α ⊕ ι)

/-- The text without marks. -/
def plain (s : List α) : Marked α ι := s.map Sum.inl

/-- Write `f i` for every mark `i`. -/
def render (f : ι → List α) (D : Marked α ι) : List α := D.flatMap (Sum.elim (fun c => [c]) f)

/-- The marks from left to right. -/
def marks (D : Marked α ι) : List ι := D.filterMap Sum.getRight?

/-- The letters from left to right. -/
def letters (D : Marked α ι) : List α := D.filterMap Sum.getLeft?

section Basic

variable (f : ι → List α)

@[simp] theorem render_nil : render f [] = [] := rfl

@[simp] theorem render_inl_cons (c : α) (D : Marked α ι) :
    render f (.inl c :: D) = c :: render f D := rfl

@[simp] theorem render_inr_cons (i : ι) (D : Marked α ι) :
    render f (.inr i :: D) = f i ++ render f D := rfl

@[simp] theorem render_append (D E : Marked α ι) : render f (D ++ E) = render f D ++ render f E :=
  List.flatMap_append

@[simp] theorem render_plain (s : List α) : render f (plain s) = s := by
  induction s with
  | nil => rfl
  | cons c s ih => exact congrArg (c :: ·) ih

theorem render_reverse (D : Marked α ι) :
    (render f D).reverse = render (fun i => (f i).reverse) D.reverse := by
  induction D with
  | nil => rfl
  | cons x D ih =>
    rcases x with c | i
    · rw [render_inl_cons, List.reverse_cons, List.reverse_cons, render_append, ih]; rfl
    · rw [render_inr_cons, List.reverse_append, List.reverse_cons, render_append, ih]
      simp

@[simp] theorem plain_nil : (plain [] : Marked α ι) = [] := rfl

@[simp] theorem plain_cons (c : α) (s : List α) :
    (plain (c :: s) : Marked α ι) = .inl c :: plain s := rfl

theorem plain_reverse (s : List α) : (plain s : Marked α ι).reverse = plain s.reverse :=
  List.map_reverse.symm

theorem plain_ne_nil {s : List α} (h : s ≠ []) : (plain s : Marked α ι) ≠ [] := by
  simpa [plain] using h

@[simp] theorem marks_nil : marks ([] : Marked α ι) = [] := rfl

@[simp] theorem marks_inl_cons (c : α) (D : Marked α ι) : marks (.inl c :: D) = marks D := rfl

@[simp] theorem marks_inr_cons (i : ι) (D : Marked α ι) : marks (.inr i :: D) = i :: marks D := rfl

@[simp] theorem marks_append (D E : Marked α ι) : marks (D ++ E) = marks D ++ marks E :=
  List.filterMap_append

@[simp] theorem marks_plain (s : List α) : marks (plain s : Marked α ι) = [] := by
  induction s with
  | nil => rfl
  | cons c s ih => exact ih

@[simp] theorem letters_nil : letters ([] : Marked α ι) = [] := rfl

@[simp] theorem letters_inl_cons (c : α) (D : Marked α ι) :
    letters (.inl c :: D) = c :: letters D := rfl

@[simp] theorem letters_inr_cons (i : ι) (D : Marked α ι) : letters (.inr i :: D) = letters D := rfl

@[simp] theorem letters_append (D E : Marked α ι) : letters (D ++ E) = letters D ++ letters E :=
  List.filterMap_append

@[simp] theorem letters_plain (s : List α) : letters (plain s : Marked α ι) = s := by
  induction s with
  | nil => rfl
  | cons c s ih => exact congrArg (c :: ·) ih

theorem render_congr {g : ι → List α} {D : Marked α ι} (h : ∀ i ∈ marks D, f i = g i) :
    render f D = render g D := by
  induction D with
  | nil => rfl
  | cons x D ih =>
    rcases x with c | i
    · rw [render_inl_cons, render_inl_cons, ih h]
    · rw [render_inr_cons, render_inr_cons, h i List.mem_cons_self,
        ih fun j hj => h j (List.mem_cons_of_mem _ hj)]

theorem mem_letters {c : α} {D : Marked α ι} : c ∈ letters D ↔ .inl c ∈ D := by
  rw [letters, List.mem_filterMap]
  constructor
  · rintro ⟨x | i, hx, h⟩
    · cases h
      exact hx
    · cases h
  · exact fun h => ⟨_, h, rfl⟩

theorem letters_subset_of_infix {D E : Marked α ι} (h : D <:+: E) : letters D ⊆ letters E :=
  (h.filterMap _).subset

end Basic

/-! ## Renderings apart from a pattern -/

/-- Every rendering of a mark starts with a letter that is not in `p`. -/
def HeadApart (f : ι → List α) (p : List α) : Prop := ∀ i, ∃ c r, f i = c :: r ∧ c ∉ p

/-- Every rendering of a mark ends with a letter that is not in `p`. -/
def LastApart (f : ι → List α) (p : List α) : Prop := ∀ i, ∃ r c, f i = r ++ [c] ∧ c ∉ p

/-- `f` renders every mark with some letters, none of them a letter of `p`. -/
def Apart (f : ι → List α) (p : List α) : Prop := ∀ i, f i ≠ [] ∧ ∀ c ∈ f i, c ∉ p

theorem Apart.headApart {f : ι → List α} {p : List α} (h : Apart f p) : HeadApart f p := fun i => by
  obtain ⟨c, r, hf⟩ := List.exists_cons_of_ne_nil (h i).1
  exact ⟨c, r, hf, (h i).2 c (by rw [hf]; exact List.mem_cons_self)⟩

theorem LastApart.reverse {f : ι → List α} {p : List α} (h : LastApart f p) :
    HeadApart (fun i => (f i).reverse) p.reverse := fun i => by
  obtain ⟨r, c, hf, hc⟩ := h i
  exact ⟨c, r.reverse, by simp [hf], by rwa [List.mem_reverse]⟩

/-- A pattern no rendering starts with a letter of is found among the letters only. -/
theorem prefix_render {f : ι → List α} {p : List α} (h : HeadApart f p) (D : Marked α ι) :
    p <+: render f D ↔ plain p <+: D := by
  induction p generalizing D with
  | nil => simp
  | cons a p ih =>
    have hp : HeadApart f p := fun i => by
      obtain ⟨c, r, hf, hc⟩ := h i
      exact ⟨c, r, hf, fun hcp => hc (List.mem_cons_of_mem _ hcp)⟩
    rcases D with _ | ⟨x, D⟩
    · simp
    · rcases x with c | i
      · rw [render_inl_cons, plain_cons, List.cons_prefix_cons, List.cons_prefix_cons, ih hp,
          Sum.inl.injEq]
      · obtain ⟨c, r, hf, hc⟩ := h i
        rw [render_inr_cons, plain_cons, hf, List.cons_append, List.cons_prefix_cons,
          List.cons_prefix_cons]
        constructor
        · rintro ⟨rfl, _⟩
          exact absurd List.mem_cons_self hc
        · rintro ⟨hx, _⟩
          cases hx

theorem suffix_render {f : ι → List α} {p : List α} (h : LastApart f p) (D : Marked α ι) :
    p <:+ render f D ↔ plain p <:+ D := by
  rw [← List.reverse_prefix, render_reverse, prefix_render h.reverse, ← plain_reverse,
    List.reverse_prefix]

variable [DecidableEq α] [DecidableEq ι]

/-! ## Trimming and replacing -/

theorem trimStartMatches_render {f : ι → List α} {p : List α} (hp : p ≠ []) (h : HeadApart f p) :
    ∀ D : Marked α ι, trimStartMatches p (render f D) = render f (trimStartMatches (plain p) D) := by
  intro D
  induction D using pattern_induction (plain_ne_nil hp) with
  | cut E ih =>
    rw [render_append, render_plain, trimStartMatches_append hp,
      trimStartMatches_append (plain_ne_nil hp), ih]
  | step D hD _ => rw [trimStartMatches_of_not hD, trimStartMatches_of_not (by rwa [prefix_render h])]

theorem trimEndMatches_render {f : ι → List α} {p : List α} (hp : p ≠ []) (h : LastApart f p)
    (D : Marked α ι) : trimEndMatches p (render f D) = render f (trimEndMatches (plain p) D) := by
  rw [trimEndMatches, trimEndMatches, render_reverse,
    trimStartMatches_render (by simpa using hp) h.reverse, render_reverse, plain_reverse]
  simp

omit [DecidableEq α] [DecidableEq ι] in
/-- Dropping letters that no rendering starts with. -/
theorem dropWhile_render {f : ι → List α} {q : α → Bool}
    (h : ∀ i, ∃ c r, f i = c :: r ∧ q c = false) (D : Marked α ι) :
    (render f D).dropWhile q = render f (D.dropWhile (Sum.elim q fun _ => false)) := by
  induction D with
  | nil => rfl
  | cons x D ih =>
    rcases x with c | i
    · rw [render_inl_cons, List.dropWhile_cons, List.dropWhile_cons, Sum.elim_inl]
      by_cases hq : q c = true
      · rw [if_pos hq, if_pos hq, ih]
      · rw [if_neg hq, if_neg hq, render_inl_cons]
    · obtain ⟨c, r, hf, hc⟩ := h i
      rw [render_inr_cons, hf, List.cons_append, List.dropWhile_cons, List.dropWhile_cons]
      simp [hc, hf]

omit [DecidableEq α] [DecidableEq ι] in
theorem rdropWhile_render {f : ι → List α} {q : α → Bool}
    (h : ∀ i, ∃ r c, f i = r ++ [c] ∧ q c = false) (D : Marked α ι) :
    (render f D).rdropWhile q = render f (D.rdropWhile (Sum.elim q fun _ => false)) := by
  rw [List.rdropWhile, List.rdropWhile, render_reverse, dropWhile_render, render_reverse]
  · simp
  · intro i
    obtain ⟨r, c, hf, hc⟩ := h i
    exact ⟨c, r.reverse, by simp [hf], hc⟩

theorem replace_render {f : ι → List α} {p : List α} (hp : p ≠ []) (h : Apart f p)
    (T : Marked α ι) : ∀ D : Marked α ι,
      replace p (render f T) (render f D) = render f (replace (plain p) T D) := by
  intro D
  induction D using pattern_induction (plain_ne_nil hp) with
  | cut E ih =>
    rw [render_append, render_plain, replace_append hp, replace_append (plain_ne_nil hp), ih,
      render_append]
  | step D hD ih =>
    rcases D with _ | ⟨x, D⟩
    · rw [render_nil, replace_nil hp, replace_nil (plain_ne_nil hp), render_nil]
    · have hrest := ih x D rfl
      rw [replace_cons_of_not (plain_ne_nil hp) hD]
      rcases x with c | i
      · rw [← prefix_render h.headApart, render_inl_cons] at hD
        rw [render_inl_cons, replace_cons_of_not hp hD, render_inl_cons, hrest]
      · obtain ⟨a, p, rfl⟩ := List.exists_cons_of_ne_nil hp
        rw [render_inr_cons, replace_append_of_notMem fun ha => (h i).2 a ha List.mem_cons_self,
          render_inr_cons, hrest]

/-! ## Trimming and replacing letters keep the marks -/

theorem marks_trimStartMatches {p : List α} (hp : p ≠ []) : ∀ D : Marked α ι,
    marks (trimStartMatches (plain p) D) = marks D := by
  intro D
  induction D using pattern_induction (plain_ne_nil hp) with
  | cut E ih =>
    rw [trimStartMatches_append (plain_ne_nil hp), ih, marks_append, marks_plain, List.nil_append]
  | step D hD _ => rw [trimStartMatches_of_not hD]

omit [DecidableEq α] [DecidableEq ι] in
theorem marks_reverse (D : Marked α ι) : marks D.reverse = (marks D).reverse :=
  List.filterMap_reverse

theorem marks_trimEndMatches {p : List α} (hp : p ≠ []) (D : Marked α ι) :
    marks (trimEndMatches (plain p) D) = marks D := by
  rw [trimEndMatches, marks_reverse, plain_reverse, marks_trimStartMatches (by simpa using hp),
    marks_reverse, List.reverse_reverse]

omit [DecidableEq α] [DecidableEq ι] in
theorem marks_dropWhile (q : α → Bool) (D : Marked α ι) :
    marks (D.dropWhile (Sum.elim q fun _ => false)) = marks D := by
  induction D with
  | nil => rfl
  | cons x D ih =>
    rcases x with c | i
    · rw [List.dropWhile_cons]
      split_ifs
      · exact ih
      · rfl
    · rfl

omit [DecidableEq α] [DecidableEq ι] in
theorem marks_rdropWhile (q : α → Bool) (D : Marked α ι) :
    marks (D.rdropWhile (Sum.elim q fun _ => false)) = marks D := by
  rw [List.rdropWhile, marks_reverse, marks_dropWhile, marks_reverse, List.reverse_reverse]

theorem marks_replace {p : List α} (hp : p ≠ []) (t : List α) : ∀ D : Marked α ι,
    marks (replace (plain p) (plain t) D) = marks D := by
  intro D
  induction D using pattern_induction (plain_ne_nil hp) with
  | cut E ih =>
    rw [replace_append (plain_ne_nil hp), marks_append, marks_append, ih]
    simp
  | step D hD ih =>
    rcases D with _ | ⟨x, D⟩
    · rw [replace_nil (plain_ne_nil hp)]
    · have hrest := ih x D rfl
      rw [replace_cons_of_not (plain_ne_nil hp) hD]
      rcases x with c | i
      · exact hrest
      · exact congrArg (i :: ·) hrest

end ChimesUtils.Lib
