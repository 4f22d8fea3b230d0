import ChimesUtils.Lib.Ternary
import ChimesUtils.Search.Conditions

/-!
# Operators and their negations

The truth value of a condition, in the three-valued logic of SQL. A value that does not parse as the type
of its entry is passed as `NULL`, and a comparison with `NULL` is unknown.

* `selects_iff_truth`: the rows of which the condition is true are those that it selects;
* `picked_once`: which of `in` and `not in`, and of `eq` and `ne`, select a row.
-/

namespace ChimesUtils

open Lib

section Truth

variable {F V : Type} [LinearOrder V] (den : SearchValue F → V) (like : V → V → Prop)
  [∀ x y, Decidable (like x y)]

/-- The truth value of a condition for a row with this value in its column. -/
def WrapperMethod.truth : WrapperMethod → Option V → List (Option (SearchValue F)) → Ternary
  | .eq, x, [v] => .compare (fun x v => x = den v) x v
  | .ne, x, [v] => (Ternary.compare (fun x v => x = den v) x v).not
  | .gt, x, [v] => .compare (fun x v => den v < x) x v
  | .ge, x, [v] => .compare (fun x v => den v ≤ x) x v
  | .lt, x, [v] => .compare (fun x v => x < den v) x v
  | .le, x, [v] => .compare (fun x v => x ≤ den v) x v
  | .like, x, [v] => .compare (fun x v => like x (den v)) x v
  | .notLike, x, [v] => (Ternary.compare (fun x v => like x (den v)) x v).not
  | .in_, x, vs => .any (vs.map (.compare (fun x v => x = den v) x))
  | .notIn, x, vs => (Ternary.any (vs.map (.compare (fun x v => x = den v) x))).not
  | .between, x, [a, b] =>
    (Ternary.compare (fun x a => den a ≤ x) x a).and (.compare (fun x b => x ≤ den b) x b)
  | .notBetween, x, [a, b] =>
    ((Ternary.compare (fun x a => den a ≤ x) x a).and (.compare (fun x b => x ≤ den b) x b)).not
  | .isNull, x, _ => .of (x = none)
  | .isNotNull, x, _ => .of (x ≠ none)
  | _, _, _ => .unknown

def Cond.truth (c : Cond F) (row : Text → Option V) : Ternary :=
  c.method.truth den like (row c.column) c.args

variable {den like}

/-- **Selected rows.** A condition selects the rows of which it is true. -/
theorem selects_iff_truth (m : WrapperMethod) (x : Option V) {vs : List (Option (SearchValue F))}
    (h : vs ≠ []) : m.Selects den like x vs ↔ m.truth den like x vs = .true := by
  unfold WrapperMethod.truth
  cases m with
  | in_ =>
    rw [Ternary.any_eq_true_iff, List.mem_map]
    cases x with
    | none => simp [WrapperMethod.Selects, Ternary.compare]
    | some x => simp [WrapperMethod.Selects, Ternary.compare_eq_true_iff]
  | notIn =>
    rw [Ternary.not_eq_true_iff, Ternary.any_eq_false_iff, List.forall_mem_map]
    cases x with
    | none =>
      obtain ⟨v, hv⟩ := List.exists_mem_of_ne_nil vs h
      refine iff_of_false id fun hall => ?_
      cases hall v hv
    | some x => simp [WrapperMethod.Selects, Ternary.compare_eq_false_iff]
  | isNull | isNotNull => simp [WrapperMethod.Selects]
  | between | notBetween =>
    rcases vs with _ | ⟨a, _ | ⟨b, _ | ⟨c, vs⟩⟩⟩
    · exact absurd rfl h
    · cases x <;> simp [WrapperMethod.Selects]
    · cases x <;> cases a <;> cases b <;> simp [WrapperMethod.Selects, Ternary.compare]
    · cases x <;> simp [WrapperMethod.Selects]
  | _ =>
    rcases vs with _ | ⟨v, _ | ⟨u, vs⟩⟩
    · exact absurd rfl h
    · cases x <;> cases v <;> simp [WrapperMethod.Selects, Ternary.compare]
    · cases x <;> simp [WrapperMethod.Selects]

/-! ## Comparisons with a column that is not null -/

section Known

variable {x : V}

theorem eq_ne_unknown_iff (v : Option (SearchValue F)) :
    WrapperMethod.eq.truth den like (some x) [v] ≠ .unknown ↔ v ≠ none := by
  unfold WrapperMethod.truth
  rw [Ternary.compare_ne_unknown_iff]
  simp

theorem in_ne_unknown_iff (vs : List (Option (SearchValue F))) :
    WrapperMethod.in_.truth den like (some x) vs ≠ .unknown ↔
      (∀ v ∈ vs, v ≠ none) ∨ ∃ v, some v ∈ vs ∧ x = den v := by
  unfold WrapperMethod.truth
  rw [Ternary.any_ne_unknown_iff, List.mem_map, List.forall_mem_map]
  simp only [Ternary.compare_ne_unknown_iff, Ternary.compare_eq_true_iff]
  simp [or_comm]

end Known

end Truth

/-! ## The conditions of an entry -/

/-- The entry with this operator. -/
def SearchField.withOperator (f : SearchField) (word : Text) : SearchField :=
  { f with operator := some word }

/-- Just one of `a` and `b` holds if `known` does, and neither of them otherwise. -/
def OneIf (known a b : Prop) : Prop := (known → Xor a b) ∧ (¬ known → ¬ a ∧ ¬ b)

section Picks

variable {W F V : Type} [LinearOrder V] (P : Parsers F) (R : RbatisWrapper W F)
  (conds : W → List (Cond F)) (den : SearchValue F → V) (like : V → V → Prop)
  [∀ x y, Decidable (like x y)]

/-- With this operator, `into_wrapper` builds one condition for the entry, and it is true of the row. -/
def SearchField.Picks (f : SearchField) (word : Text) (wp : W) (row : Text → Option V) : Prop :=
  ∃ wp' c, CommonSearch.intoWrapper P R ⟨[f.withOperator word]⟩ wp = some wp' ∧
    conds wp' = conds wp ++ [c] ∧ c.truth den like row = .true

variable {P R conds den like} {f : SearchField} {word : Text} {wp : W}
  {row : Text → Option V}

theorem picks_iff_truth (op : SearchOp) (hlaws : CondLaws R conds)
    (hop : (f.withOperator word).op = some op) {vs : List (Option (SearchValue F))}
    (hvs : f.values P op = some vs) :
    f.Picks P R conds den like word wp row ↔
      op.method.truth den like (row f.column) vs = .true := by
  have hbuilt : CommonSearch.intoWrapper P R ⟨[f.withOperator word]⟩ wp =
      some (R.call op.method (R.and wp) f.column vs) := by
    have hvalues : (f.withOperator word).values P op = some vs := hvs
    show intoWrapperLoop P R [f.withOperator word] wp = _
    rw [intoWrapperLoop_cons, hop]
    simp only [hvalues]
    rfl
  unfold SearchField.Picks
  rw [hbuilt]
  constructor
  · rintro ⟨wp', c, hwp', hconds, htruth⟩
    cases hwp'
    rw [hlaws.call, hlaws.and] at hconds
    rwa [← List.singleton_injective (List.append_cancel_left hconds)] at htruth
  · intro htruth
    exact ⟨_, ⟨op.method, f.column, vs⟩, rfl, by rw [hlaws.call, hlaws.and], htruth⟩

theorem oneIf_of_truth {known a b : Prop} {t : Ternary} (hknown : t ≠ .unknown ↔ known)
    (ha : a ↔ t = .true) (hb : b ↔ t.not = .true) : OneIf known a b := by
  unfold OneIf
  rw [← hknown, ha, hb]
  refine ⟨Ternary.xor_not_iff.mpr, fun h => ?_⟩
  rw [not_not.mp h]
  decide

variable (P) (den) (like) (f) (row) (wp)

/-- **Operators and their negations.** For every entry and every row whose column is not null: just one of
the conditions for `in` and `not in` is true of the row when all elements of the list parse or one that
parses is the value of the column, and neither is otherwise; just one of those for `eq` and `ne` is true
when the value parses, and neither is otherwise. -/
theorem picked_once (hlaws : CondLaws R conds) (hrow : row f.column ≠ none) :
    OneIf ((∀ v ∈ f.splitValue P, v ≠ none) ∨
        ∃ v, some v ∈ f.splitValue P ∧ row f.column = some (den v))
      (f.Picks P R conds den like "in".toList wp row)
      (f.Picks P R conds den like "not in".toList wp row) ∧
    OneIf (f.toValue P ≠ none) (f.Picks P R conds den like "eq".toList wp row)
      (f.Picks P R conds den like "ne".toList wp row) := by
  obtain ⟨x, hx⟩ := Option.ne_none_iff_exists'.mp hrow
  constructor
  · refine oneIf_of_truth ?_ (picks_iff_truth .in_ hlaws rfl rfl)
      (picks_iff_truth .notIn hlaws rfl rfl)
    rw [hx]
    simp only [Option.some.injEq]
    exact in_ne_unknown_iff (f.splitValue P)
  · refine oneIf_of_truth ?_ (picks_iff_truth .eq hlaws rfl rfl)
      (picks_iff_truth .ne hlaws rfl rfl)
    rw [hx]
    exact eq_ne_unknown_iff (f.toValue P)

end Picks

/-- A list of integers with an element that is none. -/
def malformedList : SearchField := ⟨some ['a'], none, some "integer".toList, some "1,x".toList⟩

/-- The operator selects a row with this number in its column. -/
def MalformedPicks (word : Text) (x : ℤ) : Prop :=
  malformedList.Picks noParsers condWrapper id intValue (· = ·) word [] fun _ => some x

/-- The column has the element that parses. The whole value does not parse. -/
theorem picked_once_malformedList :
    Xor (MalformedPicks "in".toList 1) (MalformedPicks "not in".toList 1) ∧
    ¬ MalformedPicks "eq".toList 1 ∧ ¬ MalformedPicks "ne".toList 1 := by
  obtain ⟨⟨hone, -⟩, -, hneither⟩ := picked_once noParsers intValue (· = ·) malformedList []
    (fun _ => some 1) condWrapper_laws (by decide)
  refine ⟨hone (Or.inr ⟨.int64 1, by decide +kernel, rfl⟩), hneither ?_⟩
  decide +kernel

/-- The column has another number: none of the conditions selects the row. -/
theorem malformedList_unpicked :
    malformedList.splitValue noParsers = [some (.int64 1), none] ∧
    ¬ Xor (MalformedPicks "in".toList 2) (MalformedPicks "not in".toList 2) ∧
    ¬ Xor (MalformedPicks "eq".toList 2) (MalformedPicks "ne".toList 2) := by
  have hlist : malformedList.splitValue noParsers = [some (.int64 1), none] := by decide +kernel
  have hvalue : malformedList.toValue noParsers = none := by decide +kernel
  unfold MalformedPicks
  refine ⟨hlist, ?_, ?_⟩
  · rw [picks_iff_truth .in_ condWrapper_laws rfl rfl,
      picks_iff_truth .notIn condWrapper_laws rfl rfl, hlist]
    unfold Xor
    decide
  · rw [picks_iff_truth .eq condWrapper_laws rfl rfl,
      picks_iff_truth .ne condWrapper_laws rfl rfl, hvalue]
    unfold Xor
    decide

end ChimesUtils
