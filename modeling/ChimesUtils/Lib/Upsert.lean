import Mathlib

/-!
# Inserting or updating

A table is a list of records with a key. A record with a new key is appended; one with a known key is
merged into every record with that key.

* `map_key_upsert`: what one record does to the keys;
* `mem_keys_upsertAll`, `pairwise_keys_upsertAll`: after any records, the table has the keys of these in
  the order of their first appearance;
* `find_upsertAll`: the record with a key is the first one given, with the later ones merged into it.
-/

namespace ChimesUtils.Lib

variable {α κ : Type} [DecidableEq κ] (key : α → κ) (merge : α → α → α)

def upsert (table : List α) (x : α) : List α :=
  if key x ∈ table.map key then table.map fun y => if key y = key x then merge y x else y
  else table ++ [x]

def upsertAll (xs : List α) : List α := xs.foldl (upsert key merge) []

theorem upsertAll_concat (xs : List α) (x : α) :
    upsertAll key merge (xs ++ [x]) = upsert key merge (upsertAll key merge xs) x :=
  List.foldl_concat _ _ _ _

/-! ## Positions -/

theorem idxOf_lt_of_filter [BEq κ] [LawfulBEq κ] {p : κ → Bool} {a b : κ} {l : List κ}
    (ha : p a = true) (hb : p b = true)
    (h : (l.filter p).idxOf a < (l.filter p).idxOf b) : l.idxOf a < l.idxOf b := by
  induction l with
  | nil => exact h
  | cons c l ih =>
    by_cases hc : p c = true
    · rw [List.filter_cons_of_pos hc] at h
      by_cases hca : c = a
      · have hne : a ≠ b := fun hab => by rw [hab] at h; exact lt_irrefl _ h
        rw [hca, List.idxOf_cons_self, List.idxOf_cons_ne _ hne]
        exact Nat.succ_pos _
      · by_cases hcb : c = b
        · rw [hcb, List.idxOf_cons_self] at h
          exact absurd h (Nat.not_lt_zero _)
        · rw [List.idxOf_cons_ne _ hca, List.idxOf_cons_ne _ hcb] at h ⊢
          exact Nat.succ_lt_succ (ih (Nat.lt_of_succ_lt_succ h))
    · rw [List.filter_cons_of_neg hc] at h
      have hca : c ≠ a := fun he => hc (he ▸ ha)
      have hcb : c ≠ b := fun he => hc (he ▸ hb)
      rw [List.idxOf_cons_ne _ hca, List.idxOf_cons_ne _ hcb]
      exact Nat.succ_lt_succ (ih h)

/-! ## Keys -/

section Keys

variable {key merge} (hkey : ∀ x y, key x = key y → key (merge x y) = key x)
include hkey

theorem map_key_upsert (table : List α) (x : α) :
    (upsert key merge table x).map key =
      if key x ∈ table.map key then table.map key else table.map key ++ [key x] := by
  unfold upsert
  by_cases h : key x ∈ table.map key
  · rw [if_pos h, if_pos h, List.map_map]
    refine List.map_congr_left fun y _ => ?_
    show key (if key y = key x then merge y x else y) = key y
    by_cases hy : key y = key x
    · rw [if_pos hy, hkey y x hy]
    · rw [if_neg hy]
  · rw [if_neg h, if_neg h, List.map_append, List.map_singleton]

theorem mem_keys_upsertAll (k : κ) (xs : List α) :
    k ∈ (upsertAll key merge xs).map key ↔ k ∈ xs.map key := by
  induction xs using List.reverseRecOn with
  | nil => rfl
  | append_singleton xs x ih =>
    rw [upsertAll_concat, map_key_upsert hkey, List.map_append, List.mem_append, List.map_singleton,
      List.mem_singleton]
    by_cases h : key x ∈ (upsertAll key merge xs).map key
    · rw [if_pos h, ih]
      refine ⟨Or.inl, fun hk => hk.elim id fun he => ?_⟩
      rw [← ih, he]
      exact h
    · rw [if_neg h, List.mem_append, ih, List.mem_singleton]

/-- **The keys** come in the order of their first appearance. -/
theorem pairwise_keys_upsertAll [BEq κ] [LawfulBEq κ] (xs : List α) :
    ((upsertAll key merge xs).map key).Pairwise
      fun a b => (xs.map key).idxOf a < (xs.map key).idxOf b := by
  induction xs using List.reverseRecOn with
  | nil => exact List.Pairwise.nil
  | append_singleton xs x ih =>
    have hold : ∀ a, a ∈ (upsertAll key merge xs).map key →
        ((xs ++ [x]).map key).idxOf a = (xs.map key).idxOf a := by
      intro a ha
      rw [List.map_append, List.idxOf_append_of_mem ((mem_keys_upsertAll hkey a xs).mp ha)]
    have hsame : ((upsertAll key merge xs).map key).Pairwise
        fun a b => ((xs ++ [x]).map key).idxOf a < ((xs ++ [x]).map key).idxOf b :=
      ih.imp_of_mem fun ha hb hlt => by rw [hold _ ha, hold _ hb]; exact hlt
    rw [upsertAll_concat, map_key_upsert hkey]
    by_cases h : key x ∈ (upsertAll key merge xs).map key
    · rw [if_pos h]
      exact hsame
    · rw [if_neg h]
      refine List.pairwise_append.mpr ⟨hsame, List.pairwise_singleton _ _, fun a ha b hb => ?_⟩
      have hnew : key x ∉ xs.map key := fun hk => h ((mem_keys_upsertAll hkey _ xs).mpr hk)
      have ha' := (mem_keys_upsertAll hkey a xs).mp ha
      rw [List.mem_singleton.mp hb, hold a ha, List.map_append,
        List.idxOf_append_of_notMem hnew, List.map_singleton, List.idxOf_cons_self, Nat.add_zero]
      exact List.idxOf_lt_length_iff.mpr ha'

theorem nodup_keys_upsertAll (xs : List α) : ((upsertAll key merge xs).map key).Nodup :=
  (pairwise_keys_upsertAll hkey xs).imp fun hlt he => by
    rw [he] at hlt
    exact lt_irrefl _ hlt

/-! ## Records -/

theorem find_upsert (table : List α) (x : α) (k : κ) :
    (upsert key merge table x).find? (fun y => key y = k) =
      if key x = k then some ((table.find? fun y => key y = k).elim x fun y => merge y x)
      else table.find? fun y => key y = k := by
  unfold upsert
  by_cases h : key x ∈ table.map key
  · -- the merged records are found where the old ones are
    have hfun : ((fun y => decide (key y = k)) ∘ fun y => if key y = key x then merge y x else y) =
        fun y => decide (key y = k) := by
      funext y
      show decide (key (if key y = key x then merge y x else y) = k) = decide (key y = k)
      by_cases hy : key y = key x
      · rw [if_pos hy, hkey y x hy]
      · rw [if_neg hy]
    rw [if_pos h, List.find?_map, hfun]
    cases hfind : table.find? fun y => key y = k with
    | none =>
      have hk : key x ≠ k := by
        intro he
        obtain ⟨y, hy, hyx⟩ := List.mem_map.mp h
        exact absurd (decide_eq_true (hyx.trans he)) (List.find?_eq_none.mp hfind y hy)
      rw [if_neg hk]
      rfl
    | some y =>
      have hy : key y = k := by simpa using List.find?_some hfind
      rw [Option.map_some, hy]
      by_cases he : key x = k
      · rw [if_pos he, if_pos he.symm]
        rfl
      · rw [if_neg he, if_neg fun hc => he hc.symm]
  · rw [if_neg h, List.find?_append]
    by_cases he : key x = k
    · have hnone : table.find? (fun y => decide (key y = k)) = none := by
        refine List.find?_eq_none.mpr fun y hy hyk => h ?_
        rw [he, ← of_decide_eq_true hyk]
        exact List.mem_map_of_mem hy
      rw [if_pos he, hnone, Option.none_or, List.find?_cons_of_pos (by simpa using he)]
      rfl
    · rw [if_neg he, List.find?_cons_of_neg (by simpa using he), List.find?_nil, Option.or_none]

/-- **The record with a key.** -/
theorem find_upsertAll (xs : List α) (k : κ) :
    (upsertAll key merge xs).find? (fun y => key y = k) =
      match xs.filter fun x => key x = k with
      | [] => none
      | x :: rest => some (rest.foldl merge x) := by
  induction xs using List.reverseRecOn with
  | nil => rfl
  | append_singleton xs x ih =>
    rw [upsertAll_concat, find_upsert hkey, ih, List.filter_append]
    by_cases he : key x = k
    · rw [if_pos he, List.filter_cons_of_pos (by simpa using he), List.filter_nil]
      cases xs.filter fun y => key y = k with
      | nil => rfl
      | cons y rest =>
        show some (merge (rest.foldl merge y) x) = some ((rest ++ [x]).foldl merge y)
        rw [List.foldl_concat]
    · rw [if_neg he, List.filter_cons_of_neg (by simpa using he), List.filter_nil, List.append_nil]

omit hkey in
theorem filter_eq_toList_find {table : List α} (h : (table.map key).Nodup) (k : κ) :
    (table.filter fun y => key y = k) = (table.find? fun y => key y = k).toList := by
  induction table with
  | nil => rfl
  | cons y table ih =>
    rw [List.map_cons, List.nodup_cons] at h
    by_cases hy : key y = k
    · have hrest : (table.filter fun z => key z = k) = [] := by
        refine List.filter_eq_nil_iff.mpr fun z hz hzk => h.1 ?_
        rw [hy, ← of_decide_eq_true hzk]
        exact List.mem_map_of_mem hz
      rw [List.filter_cons_of_pos (by simpa using hy), List.find?_cons_of_pos (by simpa using hy), hrest]
      rfl
    · rw [List.filter_cons_of_neg (by simpa using hy), List.find?_cons_of_neg (by simpa using hy), ih h.2]

theorem upsert_upsert (hself : ∀ x, merge x x = x) (htwice : ∀ y x, merge (merge y x) x = merge y x)
    (table : List α) (x : α) :
    upsert key merge (upsert key merge table x) x = upsert key merge table x := by
  have hmem : key x ∈ (upsert key merge table x).map key := by
    rw [map_key_upsert hkey]
    by_cases h : key x ∈ table.map key
    · rwa [if_pos h]
    · rw [if_neg h]
      exact List.mem_append_right _ (List.mem_singleton.mpr rfl)
  rw [upsert, if_pos hmem, upsert]
  by_cases h : key x ∈ table.map key
  · rw [if_pos h, List.map_map]
    refine List.map_congr_left fun y _ => ?_
    simp only [Function.comp_apply]
    by_cases hy : key y = key x
    · rw [if_pos hy, if_pos ((hkey y x hy).trans hy), htwice]
    · rw [if_neg hy, if_neg hy]
  · rw [if_neg h, List.map_append, List.map_singleton, if_pos rfl, hself]
    congr 1
    refine (List.map_congr_left fun y hy => if_neg fun he => h ?_).trans (List.map_id table)
    rw [← he]
    exact List.mem_map_of_mem hy

end Keys

end ChimesUtils.Lib
