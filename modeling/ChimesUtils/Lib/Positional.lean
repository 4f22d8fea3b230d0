import Mathlib

/-!
# Numerals over an alphabet

The letters of an alphabet are the digits of a base, in their order. The base is at least two.

* `numeral`, `value`: writing a number, and reading a numeral;
* `value_numeral`: reading what was written, when no letter occurs twice;
* `length_numeral`, `mem_of_mem_numeral`: the length and the letters of a numeral.
-/

namespace ChimesUtils.Lib.Positional

variable {α : Type} {b : ℕ} (alphabet : Vector α (b + 2))

/-- The letter of a digit. -/
def letter (d : ℕ) : α := alphabet.get (Fin.ofNat (b + 2) d)

/-- The numeral of a number, without leading zeros; zero has the empty numeral. -/
def numeral (n : ℕ) : List α := ((Nat.digits (b + 2) n).map (letter alphabet)).reverse

/-- The value of a numeral: each letter counts as its place in the alphabet. -/
def value [DecidableEq α] (s : List α) : ℕ :=
  s.foldl (fun n c => (b + 2) * n + alphabet.toList.idxOf c) 0

theorem getElem?_letter {d : ℕ} (hd : d < b + 2) :
    alphabet.toList[d]? = some (letter alphabet d) := by
  have hmod : d % (b + 2) = d := Nat.mod_eq_of_lt hd
  unfold letter
  simp [Vector.get, hmod, hd]

theorem letter_mem (d : ℕ) : letter alphabet d ∈ alphabet.toList := by
  have hlt : d % (b + 2) < b + 2 := Nat.mod_lt _ (by omega)
  have hmod : letter alphabet d = letter alphabet (d % (b + 2)) := by
    unfold letter
    congr 1
    exact Fin.ext (Nat.mod_mod _ _).symm
  rw [hmod]
  exact List.mem_of_getElem? (getElem?_letter alphabet hlt)

theorem idxOf_letter [DecidableEq α] (h : alphabet.toList.Nodup) {d : ℕ} (hd : d < b + 2) :
    alphabet.toList.idxOf (letter alphabet d) = d := by
  obtain ⟨hlt, hletter⟩ := List.getElem?_eq_some_iff.mp (getElem?_letter alphabet hd)
  rw [← hletter]
  exact h.idxOf_getElem d hlt

theorem numeral_zero : numeral alphabet 0 = [] := by
  unfold numeral
  rw [Nat.digits_zero]
  rfl

theorem numeral_of_pos {n : ℕ} (hn : 0 < n) :
    numeral alphabet n = numeral alphabet (n / (b + 2)) ++ [letter alphabet (n % (b + 2))] := by
  unfold numeral
  rw [Nat.digits_def' (by omega) hn, List.map_cons, List.reverse_cons]

theorem numeral_ne_nil {n : ℕ} (hn : 0 < n) : numeral alphabet n ≠ [] := by
  rw [numeral_of_pos alphabet hn]
  exact List.append_ne_nil_of_right_ne_nil _ (List.cons_ne_nil _ _)

theorem value_append_singleton [DecidableEq α] (s : List α) (c : α) :
    value alphabet (s ++ [c]) = (b + 2) * value alphabet s + alphabet.toList.idxOf c := by
  unfold value
  rw [List.foldl_append]
  rfl

/-- **Reading a numeral** gives the number that was written. -/
theorem value_numeral [DecidableEq α] (h : alphabet.toList.Nodup) (n : ℕ) :
    value alphabet (numeral alphabet n) = n := by
  induction n using Nat.strong_induction_on with
  | _ n ih =>
    rcases Nat.eq_zero_or_pos n with rfl | hn
    · rw [numeral_zero]
      rfl
    · have hdiv : n / (b + 2) < n := Nat.div_lt_self hn (by omega)
      have hmod : n % (b + 2) < b + 2 := Nat.mod_lt _ (by omega)
      rw [numeral_of_pos alphabet hn, value_append_singleton, ih _ hdiv, idxOf_letter alphabet h hmod]
      exact Nat.div_add_mod n (b + 2)

theorem length_numeral (n : ℕ) : (numeral alphabet n).length = (Nat.digits (b + 2) n).length := by
  unfold numeral
  rw [List.length_reverse, List.length_map]

theorem mem_of_mem_numeral {n : ℕ} {c : α} (hc : c ∈ numeral alphabet n) : c ∈ alphabet.toList := by
  unfold numeral at hc
  rw [List.mem_reverse, List.mem_map] at hc
  obtain ⟨d, -, rfl⟩ := hc
  exact letter_mem alphabet d

end ChimesUtils.Lib.Positional
