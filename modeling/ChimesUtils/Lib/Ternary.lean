import Mathlib.Data.List.Basic
import Mathlib.Logic.Basic

/-!
# Three truth values

The logic of SQL: a comparison with a missing value is neither true nor false.

* `Ternary.not`, `Ternary.and`, `Ternary.or`, `Ternary.any`: the connectives;
* `compare`: a comparison of values that may be missing;
* `xor_not_iff`: just one of a condition and its negation is true unless the condition is unknown.
-/

namespace ChimesUtils.Lib

inductive Ternary where
  | false
  | unknown
  | true
  deriving DecidableEq

namespace Ternary

def not : Ternary → Ternary
  | false => true
  | unknown => unknown
  | true => false

def and : Ternary → Ternary → Ternary
  | false, _ => false
  | true, t => t
  | unknown, false => false
  | unknown, _ => unknown

def or : Ternary → Ternary → Ternary
  | true, _ => true
  | false, t => t
  | unknown, true => true
  | unknown, _ => unknown

/-- The disjunction of a list. -/
def any (ts : List Ternary) : Ternary := ts.foldr or false

/-- The truth value of a decided proposition. -/
def of (p : Prop) [Decidable p] : Ternary := if p then true else false

/-! ## Connectives -/

@[simp] theorem not_eq_true_iff {t : Ternary} : t.not = true ↔ t = false := by cases t <;> decide

@[simp] theorem and_eq_true_iff {t u : Ternary} : t.and u = true ↔ t = true ∧ u = true := by
  cases t <;> cases u <;> decide

@[simp] theorem and_eq_false_iff {t u : Ternary} : t.and u = false ↔ t = false ∨ u = false := by
  cases t <;> cases u <;> decide

@[simp] theorem or_eq_true_iff {t u : Ternary} : t.or u = true ↔ t = true ∨ u = true := by
  cases t <;> cases u <;> decide

@[simp] theorem or_eq_false_iff {t u : Ternary} : t.or u = false ↔ t = false ∧ u = false := by
  cases t <;> cases u <;> decide

theorem ne_unknown_iff {t : Ternary} : t ≠ unknown ↔ t = true ∨ t = false := by cases t <;> decide

/-- **A condition and its negation.** -/
theorem xor_not_iff {t : Ternary} : Xor (t = true) (t.not = true) ↔ t ≠ unknown := by
  unfold Xor
  cases t <;> decide

@[simp] theorem of_eq_true_iff {p : Prop} [Decidable p] : of p = true ↔ p := by
  unfold of
  split_ifs with h
  · exact iff_of_true rfl h
  · exact iff_of_false (by decide) h

@[simp] theorem of_eq_false_iff {p : Prop} [Decidable p] : of p = false ↔ ¬ p := by
  unfold of
  split_ifs with h
  · exact iff_of_false (by decide) fun hn => hn h
  · exact iff_of_true rfl h

theorem of_ne_unknown (p : Prop) [Decidable p] : of p ≠ unknown := by
  unfold of
  split_ifs <;> exact Ternary.noConfusion

/-! ## Lists -/

@[simp] theorem any_eq_true_iff {ts : List Ternary} : any ts = true ↔ true ∈ ts := by
  induction ts with
  | nil => simp [any]
  | cons t ts ih =>
    show t.or (any ts) = true ↔ _
    rw [or_eq_true_iff, ih, List.mem_cons, eq_comm]

@[simp] theorem any_eq_false_iff {ts : List Ternary} : any ts = false ↔ ∀ t ∈ ts, t = false := by
  induction ts with
  | nil => simp [any]
  | cons t ts ih =>
    show t.or (any ts) = false ↔ _
    rw [or_eq_false_iff, ih, List.forall_mem_cons]

/-- **A disjunction is known** when one disjunct is true, or all are known. -/
theorem any_ne_unknown_iff {ts : List Ternary} :
    any ts ≠ unknown ↔ true ∈ ts ∨ ∀ t ∈ ts, t ≠ unknown := by
  rw [ne_unknown_iff, any_eq_true_iff, any_eq_false_iff]
  by_cases htrue : true ∈ ts
  · exact iff_of_true (Or.inl htrue) (Or.inl htrue)
  · simp only [htrue, false_or]
    refine forall₂_congr fun t ht => ?_
    rw [ne_unknown_iff]
    exact ⟨Or.inr, fun h => h.resolve_left fun heq => htrue (heq ▸ ht)⟩

/-! ## Comparisons -/

section Comparisons

variable {α β : Type} (r : α → β → Prop) [∀ a b, Decidable (r a b)]

/-- Compare two values, either of which may be missing. -/
def compare : Option α → Option β → Ternary
  | some a, some b => of (r a b)
  | _, _ => unknown

theorem compare_eq_true_iff {x : Option α} {y : Option β} :
    compare r x y = true ↔ ∃ a b, x = some a ∧ y = some b ∧ r a b := by
  cases x <;> cases y <;> simp [compare]

theorem compare_eq_false_iff {x : Option α} {y : Option β} :
    compare r x y = false ↔ ∃ a b, x = some a ∧ y = some b ∧ ¬ r a b := by
  cases x <;> cases y <;> simp [compare]

theorem compare_ne_unknown_iff {x : Option α} {y : Option β} :
    compare r x y ≠ unknown ↔ x ≠ none ∧ y ≠ none := by
  cases x <;> cases y <;> simp [compare, of_ne_unknown]

end Comparisons

end Ternary

end ChimesUtils.Lib
