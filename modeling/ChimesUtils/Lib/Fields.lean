import Mathlib

/-!
# Fields between separators

The fields of a text are its longest parts without a separator.

* `fields_append`: a separator splits the fields;
* `fields_gaps`, `fields_flatMap`: fields that are joined by separators are the fields of the whole;
* `length_fields_eq_one_iff`: when a text that neither starts nor ends with a separator is one field.
-/

namespace ChimesUtils.Lib

variable {α : Type} {p : α → Bool} {xs ys : List α} {sep x : α}

/-- The non-empty parts between separators. -/
def fields (p : α → Bool) (xs : List α) : List (List α) :=
  (xs.splitOnP p).filter fun part => !part.isEmpty

/-- A field: not empty, and without a separator. -/
def IsWholeField (p : α → Bool) (xs : List α) : Prop := xs ≠ [] ∧ ∀ x ∈ xs, p x = false

theorem fields_nil (p : α → Bool) : fields p [] = [] := by
  unfold fields
  rw [List.splitOnP_nil]
  rfl

theorem fields_append (xs ys : List α) (hsep : p sep = true) :
    fields p (xs ++ sep :: ys) = fields p xs ++ fields p ys := by
  unfold fields
  rw [List.splitOnP_append_cons xs ys hsep, List.filter_append]

theorem IsWholeField.fields_eq (h : IsWholeField p xs) : fields p xs = [xs] := by
  unfold fields
  rw [List.splitOnP_eq_singleton h.2, List.filter_cons_of_pos (by simp [h.1]), List.filter_nil]

theorem fields_gap_append {gap : List α} (hgap : ∀ x ∈ gap, p x = true) (ys : List α) :
    fields p (gap ++ ys) = fields p ys := by
  induction gap with
  | nil => rfl
  | cons x gap ih =>
    obtain ⟨hx, hgap⟩ := List.forall_mem_cons.mp hgap
    rw [List.cons_append, ← List.nil_append (x :: _), fields_append _ _ hx, fields_nil,
      List.nil_append, ih hgap]

theorem fields_append_gap {gap : List α} (hne : gap ≠ []) (hgap : ∀ x ∈ gap, p x = true)
    (xs ys : List α) : fields p (xs ++ (gap ++ ys)) = fields p xs ++ fields p ys := by
  obtain ⟨x, gap, rfl⟩ := List.exists_cons_of_ne_nil hne
  obtain ⟨hx, hgap⟩ := List.forall_mem_cons.mp hgap
  rw [List.cons_append, fields_append _ _ hx, fields_gap_append hgap]

theorem fields_append_gap_end {gap : List α} (hgap : ∀ x ∈ gap, p x = true) (xs : List α) :
    fields p (xs ++ gap) = fields p xs := by
  cases gap with
  | nil => rw [List.append_nil]
  | cons x gap =>
    rw [← List.append_nil (x :: gap), fields_append_gap (List.cons_ne_nil _ _) hgap, fields_nil,
      List.append_nil]

/-- Separators, with a field after them. -/
def IsGapped (p : α → Bool) (e : List α × List α) : Prop :=
  (e.1 ≠ [] ∧ ∀ x ∈ e.1, p x = true) ∧ IsWholeField p e.2

/-- **Fields, each after separators.** -/
theorem fields_gaps {rest : List (List α × List α)} (hrest : ∀ e ∈ rest, IsGapped p e)
    (xs : List α) : fields p (xs ++ rest.flatMap fun e => e.1 ++ e.2) =
      fields p xs ++ rest.map Prod.snd := by
  induction rest generalizing xs with
  | nil => rw [List.flatMap_nil, List.append_nil, List.map_nil, List.append_nil]
  | cons e rest ih =>
    obtain ⟨⟨⟨hne, hgap⟩, hfield⟩, hrest⟩ := List.forall_mem_cons.mp hrest
    rw [List.flatMap_cons, List.append_assoc, fields_append_gap hne hgap, ih hrest, hfield.fields_eq,
      List.map_cons, List.singleton_append]

/-- Fields, each after one separator. -/
theorem fields_flatMap {rest : List (List α)} (hsep : p sep = true)
    (hrest : ∀ f ∈ rest, IsWholeField p f) (xs : List α) :
    fields p (xs ++ rest.flatMap (sep :: ·)) = fields p xs ++ rest := by
  have hgaps : ∀ e ∈ rest.map fun f => ([sep], f), IsGapped p e := by
    intro e he
    obtain ⟨f, hf, rfl⟩ := List.mem_map.mp he
    exact ⟨⟨List.cons_ne_nil _ _, List.forall_mem_singleton.mpr hsep⟩, hrest f hf⟩
  have hfields := fields_gaps hgaps xs
  rw [List.flatMap_map, List.map_map] at hfields
  exact hfields.trans (congrArg _ (List.map_id rest))

theorem fields_ne_nil (hx : x ∈ xs) (h : p x = false) : fields p xs ≠ [] := by
  induction xs with
  | nil => cases hx
  | cons y ys ih =>
    by_cases hy : p y = true
    · have hne : x ≠ y := by
        rintro rfl
        rw [h] at hy
        cases hy
      have hfields : fields p (y :: ys) = fields p ys := by
        rw [← List.nil_append (y :: ys), fields_append [] ys hy, fields_nil, List.nil_append]
      rw [hfields]
      exact ih ((List.mem_cons.mp hx).resolve_left hne)
    · obtain ⟨part, parts, hparts⟩ := List.exists_cons_of_ne_nil (List.splitOnP_ne_nil p ys)
      unfold fields
      rw [List.splitOnP_cons_eq_if_modifyHead, if_neg hy, hparts, List.modifyHead_cons,
        List.filter_cons_of_pos rfl]
      exact List.cons_ne_nil _ _

/-- **One field.** A text between two letters that are no separators is one field just when it has no
separator. -/
theorem length_fields_eq_one_iff {a b : α} (ha : p a = false) (hb : p b = false) :
    (fields p (a :: xs ++ [b])).length = 1 ↔ ∀ x ∈ xs, p x = false := by
  constructor
  · intro h
    by_contra hne
    push Not at hne
    obtain ⟨x, hx, hsep⟩ := hne
    obtain ⟨front, back, rfl⟩ := List.append_of_mem hx
    have hsplit : fields p (a :: (front ++ x :: back) ++ [b]) =
        fields p (a :: front) ++ fields p (back ++ [b]) := by
      rw [← fields_append (a :: front) (back ++ [b]) (by simpa using hsep)]
      simp
    have hfront : 0 < (fields p (a :: front)).length :=
      List.length_pos_iff.mpr (fields_ne_nil List.mem_cons_self ha)
    have hback : 0 < (fields p (back ++ [b])).length :=
      List.length_pos_iff.mpr (fields_ne_nil (List.mem_append_right _ List.mem_cons_self) hb)
    rw [hsplit, List.length_append] at h
    omega
  · intro h
    have hfield : IsWholeField p (a :: xs ++ [b]) := by
      refine ⟨by simp, fun x hx => ?_⟩
      simp only [List.cons_append, List.mem_cons, List.mem_append, List.not_mem_nil, or_false] at hx
      rcases hx with rfl | hx | rfl
      · exact ha
      · exact h x hx
      · exact hb
    rw [hfield.fields_eq]
    rfl

end ChimesUtils.Lib
