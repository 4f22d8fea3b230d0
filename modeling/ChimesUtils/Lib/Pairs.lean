import Mathlib

/-!
# Lists of pairs

Pairs go into a map one after the other, so the last one with a key counts. In a text, the segments of
the pairs stand between separators, and the key of a segment ends at the first sign.

* `lookup_insertAll`: the map of a list of pairs;
* `splitOn_intercalate_eq_flatMap`: splitting joined segments, which may have separators in them;
* `splitOn_of_mem`: splitting a segment at its first sign.
-/

namespace ChimesUtils.Lib

/-! ## Maps -/

section Maps

variable {κ α β : Type} [DecidableEq κ]

/-- The value of the last pair with the key. -/
def lastOf (es : List (κ × α)) (k : κ) : Option α := es.reverse.lookup k

/-- Insert the pairs one after the other. -/
def insertAll (es : List (κ × α)) (m : AList fun _ : κ => α) : AList fun _ : κ => α :=
  es.foldl (fun m e => m.insert e.1 e.2) m

theorem lastOf_cons (e : κ × α) (es : List (κ × α)) (k : κ) :
    lastOf (e :: es) k = (lastOf es k).or (if k = e.1 then some e.2 else none) := by
  obtain ⟨k', v⟩ := e
  unfold lastOf
  rw [List.reverse_cons, List.lookup_append, List.lookup_cons]
  by_cases hk : k = k'
  · simp [hk]
  · simp [hk, beq_false_of_ne hk]

/-- **The map of a list of pairs.** -/
theorem lookup_insertAll (es : List (κ × α)) (m : AList fun _ : κ => α) (k : κ) :
    (insertAll es m).lookup k = (lastOf es k).or (m.lookup k) := by
  induction es generalizing m with
  | nil => rfl
  | cons e es ih =>
    have hfold : insertAll (e :: es) m = insertAll es (m.insert e.1 e.2) := rfl
    rw [hfold, ih, lastOf_cons]
    by_cases hk : k = e.1
    · rw [if_pos hk, hk, AList.lookup_insert]
      cases lastOf es e.1 <;> rfl
    · rw [if_neg hk, AList.lookup_insert_ne hk, Option.or_none]

theorem lastOf_of_perm {es : List (κ × α)} {m : AList fun _ : κ => α}
    (h : (es.map fun e => (⟨e.1, e.2⟩ : Σ _ : κ, α)).Perm m.entries) (k : κ) :
    lastOf es k = m.lookup k := by
  have hlookup : ∀ l : List (κ × α),
      l.lookup k = (l.map fun e => (⟨e.1, e.2⟩ : Σ _ : κ, α)).dlookup k := by
    intro l
    induction l with
    | nil => rfl
    | cons e l ih =>
      by_cases hk : k = e.1
      · subst hk
        rw [List.map_cons, List.dlookup_cons_eq, List.lookup_cons_self]
      · rw [List.map_cons, List.dlookup_cons_ne _ _ hk, ← ih, List.lookup_cons, beq_false_of_ne hk]
  have hreverse : (es.reverse.map fun e => (⟨e.1, e.2⟩ : Σ _ : κ, α)).Perm m.entries :=
    ((List.reverse_perm es).map _).trans h
  rw [lastOf, hlookup]
  exact List.perm_dlookup k ((List.perm_nodupKeys hreverse).mpr m.nodupKeys) hreverse

theorem foldl_update_apply (es : List (κ × α)) (f : α → β) (h : κ → β) (k : κ) :
    es.foldl (fun h e => Function.update h e.1 (f e.2)) h k = ((lastOf es k).map f).getD (h k) := by
  induction es generalizing h with
  | nil => rfl
  | cons e es ih =>
    rw [List.foldl_cons, ih, lastOf_cons]
    by_cases hk : k = e.1
    · subst hk
      rw [Function.update_self, if_pos rfl]
      cases lastOf es e.1 <;> rfl
    · rw [Function.update_of_ne hk, if_neg hk, Option.or_none]

theorem mem_of_lastOf {es : List (κ × α)} {k : κ} {v : α} (h : lastOf es k = some v) : (k, v) ∈ es := by
  obtain ⟨pre, post, hes, -⟩ := List.lookup_eq_some_iff.mp h
  rw [← List.mem_reverse, hes]
  exact List.mem_append_right _ List.mem_cons_self

theorem lastOf_map (f : α → β) (es : List (κ × α)) (k : κ) :
    lastOf (es.map fun e => (e.1, f e.2)) k = (lastOf es k).map f := by
  induction es with
  | nil => rfl
  | cons e es ih =>
    rw [List.map_cons, lastOf_cons, lastOf_cons, ih]
    by_cases hk : k = e.1
    · cases lastOf es k <;> simp [hk]
    · cases lastOf es k <;> simp [hk]

theorem isSome_mapM_iff {f : α → Option β} {xs : List α} :
    (xs.mapM f).isSome = true ↔ ∀ x ∈ xs, (f x).isSome = true := by
  induction xs with
  | nil => exact iff_of_true rfl (List.forall_mem_nil _)
  | cons x xs ih =>
    rw [List.forall_mem_cons, ← ih, List.mapM_cons]
    cases f x <;> cases xs.mapM f <;> simp

theorem mapM_congr_mem {f g : α → Option β} {xs : List α} (h : ∀ x ∈ xs, f x = g x) :
    xs.mapM f = xs.mapM g := by
  induction xs with
  | nil => rfl
  | cons x xs ih =>
    rw [List.forall_mem_cons] at h
    rw [List.mapM_cons, List.mapM_cons, h.1, ih h.2]

theorem lastOf_of_mapM {f : α → Option β} {es : List (κ × α)} {rs : List (κ × β)}
    (h : (es.mapM fun e => (f e.2).map fun v => (e.1, v)) = some rs) (k : κ) :
    lastOf rs k = (lastOf es k).bind f := by
  induction es generalizing rs with
  | nil =>
    cases h
    rfl
  | cons e es ih =>
    rw [List.mapM_cons] at h
    obtain ⟨r, hr, h⟩ := Option.bind_eq_some_iff.mp h
    obtain ⟨rs', hrs, h⟩ := Option.bind_eq_some_iff.mp h
    cases h
    obtain ⟨v, hv, rfl⟩ := Option.map_eq_some_iff.mp hr
    rw [lastOf_cons, lastOf_cons, ih hrs]
    cases hlast : lastOf es k with
    | some w =>
      have hsome := isSome_mapM_iff.mp (Option.isSome_iff_exists.mpr ⟨rs', hrs⟩) _
        (mem_of_lastOf hlast)
      rw [Option.isSome_map] at hsome
      obtain ⟨u, hu⟩ := Option.isSome_iff_exists.mp hsome
      simp [hu]
    | none =>
      by_cases hk : k = e.1 <;> simp [hk, hv]

end Maps

/-! ## Splitting -/

section Splitting

variable {α : Type} [DecidableEq α] {a : α}

/-- **Splitting joined segments.** -/
theorem splitOn_intercalate_eq_flatMap {ls : List (List α)} (h : ls ≠ []) :
    (List.intercalate [a] ls).splitOn a = ls.flatMap (List.splitOn a) := by
  induction ls with
  | nil => exact absurd rfl h
  | cons l ls ih =>
    cases ls with
    | nil => rw [List.intercalate_singleton, List.flatMap_singleton]
    | cons l' ls =>
      rw [List.intercalate_cons_cons, List.append_assoc, List.singleton_append,
        List.splitOn_append_cons_self, ih (List.cons_ne_nil _ _)]
      rfl

theorem subset_of_mem_splitOn {l s : List α} (h : s ∈ l.splitOn a) : s ⊆ l := by
  have hjoin : ∀ ls : List (List α), s ∈ ls → s ⊆ List.intercalate [a] ls := by
    intro ls hs
    induction ls with
    | nil => cases hs
    | cons t ls ih =>
      cases ls with
      | nil =>
        rw [List.mem_singleton.mp hs, List.intercalate_singleton]
        exact List.Subset.refl _
      | cons t' ls =>
        rw [List.intercalate_cons_cons, List.append_assoc]
        rcases List.mem_cons.mp hs with rfl | hs
        · exact List.subset_append_left _ _
        · exact List.subset_append_of_subset_right _ (List.subset_append_of_subset_right _ (ih hs))
  have hl := hjoin _ h
  rwa [List.intercalate_splitOn] at hl

/-- The part before the first sign. -/
def before (a : α) (l : List α) : List α := l.takeWhile (· ≠ a)

/-- The part after the first sign. -/
def after (a : α) (l : List α) : List α := (l.dropWhile (· ≠ a)).drop 1

theorem before_append {pre : List α} (h : a ∉ pre) (l : List α) : before a (pre ++ a :: l) = pre := by
  rw [before, List.takeWhile_append_of_pos fun x hx => by simpa using fun hxa : x = a => h (hxa ▸ hx)]
  simp

theorem after_append {pre : List α} (h : a ∉ pre) (l : List α) : after a (pre ++ a :: l) = l := by
  rw [after, List.dropWhile_append_of_pos fun x hx => by simpa using fun hxa : x = a => h (hxa ▸ hx)]
  simp

theorem before_of_notMem {l : List α} (h : a ∉ l) : before a l = l :=
  List.takeWhile_eq_self_iff.mpr fun x hx => by simpa using fun hxa : x = a => h (hxa ▸ hx)

theorem eq_before_after {l : List α} (h : a ∈ l) :
    l = before a l ++ a :: after a l ∧ a ∉ before a l := by
  obtain ⟨pre, post, rfl, hpre⟩ := List.eq_append_cons_of_mem h
  rw [before_append hpre, after_append hpre]
  exact ⟨rfl, hpre⟩

/-- **Splitting at the first sign.** -/
theorem splitOn_of_mem {l : List α} (h : a ∈ l) :
    l.splitOn a = before a l :: (after a l).splitOn a := by
  obtain ⟨heq, hpre⟩ := eq_before_after h
  conv_lhs => rw [heq]
  exact List.splitOn_append_cons_self_of_not_mem hpre _

theorem of_mem_splitOn {l s : List α} (h : s ∈ l.splitOn a) : s <:+: l ∧ a ∉ s := by
  induction hn : l.length using Nat.strong_induction_on generalizing l with
  | _ n ih =>
    by_cases ha : a ∈ l
    · obtain ⟨heq, hbefore⟩ := eq_before_after ha
      rw [splitOn_of_mem ha] at h
      rcases List.mem_cons.mp h with rfl | h
      · exact ⟨(List.takeWhile_prefix _).isInfix, hbefore⟩
      · have hsuffix : after a l <:+ l := ⟨before a l ++ [a], by
          rw [List.append_assoc, List.singleton_append, ← heq]⟩
        have hshort : (after a l).length < n := by
          rw [← hn]
          conv_rhs => rw [heq]
          rw [List.length_append, List.length_cons]
          omega
        obtain ⟨hstands, hnot⟩ := ih _ hshort h rfl
        exact ⟨hstands.trans hsuffix.isInfix, hnot⟩
    · rw [List.splitOn_eq_singleton ha, List.mem_singleton] at h
      rw [h]
      exact ⟨List.infix_rfl, ha⟩

theorem getElem?_splitOn_zero (a : α) (l : List α) : (l.splitOn a)[0]? = some (before a l) := by
  by_cases h : a ∈ l
  · rw [splitOn_of_mem h]
    rfl
  · rw [List.splitOn_eq_singleton h, before_of_notMem h]
    rfl

end Splitting

end ChimesUtils.Lib
