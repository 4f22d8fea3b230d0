import ChimesUtils.Lib.Pairs
import ChimesUtils.Search.Conditions

/-!
# Bounds of a range

The branches of `range` and `not range` take the first two values of the entry, as many as it has commas
and one more. The other branches take what there is.

* `values_isSome_iff`: the branch of an operator finds its values;
* `intoWrapper_isSome_iff`: the searches for which `into_wrapper` returns.
-/

namespace ChimesUtils

open Lib

namespace SearchField

variable {F : Type} (P : Parsers F) (f : SearchField)

theorem isSome_splitValue_zero : (f.splitValue P)[0]?.isSome = true := by
  unfold splitValue
  rw [List.getElem?_map, getElem?_splitOn_zero]
  rfl

theorem isSome_splitValue_one : (f.splitValue P)[1]?.isSome = true ↔ ',' ∈ f.val.getD [] := by
  unfold splitValue
  rw [List.getElem?_map, Option.isSome_map]
  by_cases hcomma : ',' ∈ f.val.getD []
  · rw [splitOn_of_mem hcomma, List.getElem?_cons_succ, getElem?_splitOn_zero]
    exact iff_of_true rfl hcomma
  · rw [List.splitOn_eq_singleton hcomma]
    exact iff_of_false Bool.false_ne_true hcomma

/-- Only ranges may miss a value: the second one. -/
theorem values_isSome_iff (op : SearchOp) :
    (f.values P op).isSome = true ↔ (op = .range ∨ op = .notRange → ',' ∈ f.val.getD []) := by
  cases op with
  | range | notRange =>
    obtain ⟨min, hmin⟩ := Option.isSome_iff_exists.mp (f.isSome_splitValue_zero P)
    unfold values
    rw [hmin, Option.bind_some, Option.isSome_map, isSome_splitValue_one]
    simp
  | _ => simp [values]

end SearchField

/-- **Panics of a search.** For every search, every parsers of floats and dates and every wrapper:
`into_wrapper` returns just when every entry with the operator `range` or `not range` has a comma in its
value. Otherwise an index is out of bounds. -/
theorem intoWrapper_isSome_iff {W F : Type} (P : Parsers F) (R : RbatisWrapper W F) (s : CommonSearch)
    (wp : W) :
    (s.intoWrapper P R wp).isSome = true ↔
      ∀ f ∈ s.search, f.op = some .range ∨ f.op = some .notRange → ',' ∈ f.val.getD [] := by
  show (intoWrapperLoop P R s.search wp).isSome = true ↔ _
  induction s.search generalizing wp with
  | nil => exact iff_of_true rfl (List.forall_mem_nil _)
  | cons f search ih =>
    rw [intoWrapperLoop_cons, List.forall_mem_cons]
    cases hop : f.op with
    | none => simpa using ih wp
    | some op =>
      rw [Option.some.injEq, Option.some.injEq, ← f.values_isSome_iff P op]
      cases hvalues : f.values P op with
      | none => simp [hvalues]
      | some vs => simpa [hvalues] using ih _

/-- A range with one bound. -/
def halfOpenSearch : CommonSearch where
  search := [⟨some ['a'], some "range".toList, some "integer".toList, some "5".toList⟩]

theorem halfOpenSearch_panics :
    halfOpenSearch.intoWrapper noParsers condWrapper [] = none ∧
    ¬ ∀ (s : CommonSearch) (wp : List (Cond Unit)),
      (s.intoWrapper noParsers condWrapper wp).isSome = true := by
  have hpanic : halfOpenSearch.intoWrapper noParsers condWrapper [] = none := by decide +kernel
  refine ⟨hpanic, fun hall => ?_⟩
  have hsome := hall halfOpenSearch []
  rw [hpanic] at hsome
  cases hsome

end ChimesUtils
