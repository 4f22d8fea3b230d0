import Mathlib

/-!
# Shuffled lists

A list of items with tags is a shuffle of the lists that it has for each tag.

* `part i`: the items with one tag, in their order;
* `filter_map_snd`: what only one tag has comes in the order of that tag, however the lists are shuffled.
-/

namespace ChimesUtils.Lib

variable {α : Type}

/-- The items with a tag. -/
def part (i : ℕ) (tagged : List (ℕ × α)) : List α := (tagged.filter fun x => x.1 = i).map Prod.snd

variable {i : ℕ} {tagged : List (ℕ × α)} {parts : List (List α)} {P : α → Bool}

theorem part_concat_self (i : ℕ) (tagged : List (ℕ × α)) (a : α) :
    part i (tagged ++ [(i, a)]) = part i tagged ++ [a] := by
  rw [part, List.filter_append, List.filter_cons_of_pos (by simp), List.map_append]
  rfl

theorem part_concat_of_ne {j : ℕ} (h : j ≠ i) (tagged : List (ℕ × α)) (a : α) :
    part i (tagged ++ [(j, a)]) = part i tagged := by
  rw [part, List.filter_append, List.filter_cons_of_neg (by simpa using h), List.filter_nil,
    List.append_nil, part]

theorem mem_part {a : α} : a ∈ part i tagged ↔ (i, a) ∈ tagged := by
  simp [part]

theorem filter_flatten {j : ℕ} (hj : ∀ i, i ≠ j → (parts.getD i []).filter P = []) :
    parts.flatten.filter P = (parts.getD j []).filter P := by
  induction parts generalizing j with
  | nil => simp
  | cons l parts ih =>
    rw [List.flatten_cons, List.filter_append]
    cases j with
    | zero =>
      have hrest : parts.flatten.filter P = [] := by
        refine List.filter_eq_nil_iff.mpr fun a ha hPa => ?_
        obtain ⟨m, hm, ham⟩ := List.mem_flatten.mp ha
        obtain ⟨i, hi⟩ := List.mem_iff_getElem?.mp hm
        have hnil := hj (i + 1) (Nat.succ_ne_zero i)
        rw [List.getD_cons_succ, List.getD_eq_getElem?_getD, hi] at hnil
        exact List.filter_eq_nil_iff.mp hnil a ham hPa
      rw [hrest, List.append_nil]
      rfl
    | succ j =>
      have hfirst : l.filter P = [] := hj 0 (Nat.succ_ne_zero j).symm
      rw [hfirst, List.nil_append, List.getD_cons_succ]
      exact ih fun i hi => hj (i + 1) fun he => hi (Nat.succ_injective he)

theorem exists_index_of_pairwise (h : parts.Pairwise fun l l' => l.filter P = [] ∨ l'.filter P = []) :
    ∃ j, ∀ i, i ≠ j → (parts.getD i []).filter P = [] := by
  induction parts with
  | nil => exact ⟨0, fun _ _ => rfl⟩
  | cons l parts ih =>
    rw [List.pairwise_cons] at h
    by_cases hl : l.filter P = []
    · obtain ⟨j, hj⟩ := ih h.2
      refine ⟨j + 1, fun i hi => ?_⟩
      cases i with
      | zero => exact hl
      | succ i => exact hj i fun he => hi (congrArg Nat.succ he)
    · refine ⟨0, fun i hi => ?_⟩
      obtain ⟨i, rfl⟩ := Nat.exists_eq_succ_of_ne_zero hi
      rw [Nat.succ_eq_add_one, List.getD_cons_succ, List.getD_eq_getElem?_getD]
      cases hget : parts[i]? with
      | none => rfl
      | some l' => exact (h.1 l' (List.mem_of_getElem? hget)).resolve_left hl

/-- **Shuffles.** The items that only one of the lists has come as in the lists put one after the
other. -/
theorem filter_map_snd (hparts : ∀ i, part i tagged = parts.getD i [])
    (hone : parts.Pairwise fun l l' => l.filter P = [] ∨ l'.filter P = []) :
    (tagged.map Prod.snd).filter P = parts.flatten.filter P := by
  obtain ⟨j, hj⟩ := exists_index_of_pairwise hone
  have htags : ∀ x ∈ tagged, P x.2 = true → x.1 = j := by
    intro x hx hP
    by_contra hne
    have hmem : x.2 ∈ parts.getD x.1 [] := hparts x.1 ▸ mem_part.mpr hx
    exact List.filter_eq_nil_iff.mp (hj x.1 hne) x.2 hmem hP
  calc (tagged.map Prod.snd).filter P
      = (tagged.filter fun x => P x.2).map Prod.snd := by rw [List.filter_map]; rfl
    _ = ((tagged.filter fun x => x.1 = j).filter fun x => P x.2).map Prod.snd := by
        rw [List.filter_filter]
        congr 1
        refine List.filter_congr fun x hx => ?_
        cases hP : P x.2 with
        | false => rfl
        | true => simp [htags x hx hP]
    _ = (part j tagged).filter P := by rw [part, List.filter_map]; rfl
    _ = parts.flatten.filter P := by rw [hparts, filter_flatten hj]

end ChimesUtils.Lib
