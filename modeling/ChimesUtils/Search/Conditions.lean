import ChimesUtils.Search.CommonSearch

/-!
# What the conditions of a search select

The methods of the wrapper append the condition of their name (`CondLaws`). A condition selects a row as
in SQL: a comparison with `NULL` selects nothing. The meaning of values and of patterns, and the order
of the column values, are parameters.

`adds_iff`: the conditions mean what the operators say just when no entry has the operator `egt`.
-/

namespace ChimesUtils

/-- A condition of a wrapper. -/
structure Cond (F : Type) where
  method : WrapperMethod
  column : Text
  args : List (Option (SearchValue F))
  deriving DecidableEq

/-- Every method appends its condition, and a connective adds none. The list is a history of the calls
that `W` carries beside the wrapper of the source; it is not a function of the text of the wrapper. -/
structure CondLaws {W F : Type} (R : RbatisWrapper W F) (conds : W → List (Cond F)) : Prop where
  and : ∀ wp, conds (R.and wp) = conds wp
  call : ∀ m wp column vs, conds (R.call m wp column vs) = conds wp ++ [⟨m, column, vs⟩]

section Meaning

variable {F V : Type} [LinearOrder V] (den : SearchValue F → V) (like : V → V → Prop)

/-- Whether a condition selects a row with this value in its column. -/
def WrapperMethod.Selects : WrapperMethod → Option V → List (Option (SearchValue F)) → Prop
  | .eq, some x, [some v] => x = den v
  | .ne, some x, [some v] => x ≠ den v
  | .gt, some x, [some v] => den v < x
  | .ge, some x, [some v] => den v ≤ x
  | .lt, some x, [some v] => x < den v
  | .le, some x, [some v] => x ≤ den v
  | .like, some x, [some v] => like x (den v)
  | .notLike, some x, [some v] => ¬ like x (den v)
  | .in_, some x, vs => ∃ v, some v ∈ vs ∧ x = den v
  | .notIn, some x, vs => ∀ v ∈ vs, ∃ u, v = some u ∧ x ≠ den u
  | .between, some x, [some a, some b] => den a ≤ x ∧ x ≤ den b
  | .notBetween, some x, [a, b] => (∃ u, a = some u ∧ x < den u) ∨ ∃ u, b = some u ∧ den u < x
  | .isNull, x, _ => x = none
  | .isNotNull, x, _ => x ≠ none
  | _, _, _ => False

def Cond.Selects (c : Cond F) (row : Text → Option V) : Prop :=
  c.method.Selects den like (row c.column) c.args

/-- The relation that an operator names, between a column value and the values of the entry. -/
def SearchOp.Relation : SearchOp → Option V → List V → Prop
  | .eq, some x, [v] => x = v
  | .ne, some x, [v] => x ≠ v
  | .gt, some x, [v] => x > v
  | .egt, some x, [v] => x ≥ v
  | .lt, some x, [v] => x < v
  | .elt, some x, [v] => x ≤ v
  | .like, some x, [v] => like x v
  | .notLike, some x, [v] => ¬ like x v
  | .in_, some x, vs => x ∈ vs
  | .notIn, some x, vs => x ∉ vs
  | .range, some x, [a, b] => a ≤ x ∧ x ≤ b
  | .notRange, some x, [a, b] => ¬ (a ≤ x ∧ x ≤ b)
  | .null, x, _ => x = none
  | .notNull, x, _ => x ≠ none
  | _, _, _ => False

end Meaning

namespace SearchField

variable {F : Type} (P : Parsers F)

/-- The values that the branch of an operator passes parse as the type of the entry, and a range has
two values. -/
def ParsableAs (f : SearchField) : SearchOp → Prop
  | .in_ | .notIn => ∀ v ∈ f.splitValue P, v.isSome = true
  | .range | .notRange =>
    2 ≤ (f.splitValue P).length ∧ ∀ v ∈ f.splitValue P, v.isSome = true
  | .null | .notNull => True
  | .eq | .ne | .gt | .egt | .lt | .elt | .like | .notLike => (f.toValue P).isSome = true

instance (f : SearchField) : ∀ op, Decidable (f.ParsableAs P op)
  | .in_ | .notIn => inferInstanceAs (Decidable (∀ v ∈ f.splitValue P, v.isSome = true))
  | .range | .notRange => inferInstanceAs
      (Decidable (2 ≤ (f.splitValue P).length ∧ ∀ v ∈ f.splitValue P, v.isSome = true))
  | .null | .notNull => isTrue trivial
  | .eq | .ne | .gt | .egt | .lt | .elt | .like | .notLike =>
    inferInstanceAs (Decidable ((f.toValue P).isSome = true))

/-- Every value of the entry parses, if its operator is a known one. -/
def Parsable (f : SearchField) : Prop := ∀ op ∈ f.op, f.ParsableAs P op

instance (f : SearchField) : Decidable (f.Parsable P) :=
  inferInstanceAs (Decidable (∀ op ∈ f.op, f.ParsableAs P op))

/-- The typed values of the entry. -/
def typed (f : SearchField) (op : SearchOp) : List (SearchValue F) :=
  ((f.values P op).getD []).reduceOption

end SearchField

/-- `into_wrapper` returns; it has added one condition for each entry with a known operator, in order,
and each condition selects the rows for which the relation of the operator holds. -/
def Adds {W F V : Type} [LinearOrder V] (P : Parsers F) (R : RbatisWrapper W F)
    (conds : W → List (Cond F)) (den : SearchValue F → V) (like : V → V → Prop) (s : CommonSearch)
    (wp : W) : Prop :=
  ∃ wp' added, s.intoWrapper P R wp = some wp' ∧ conds wp' = conds wp ++ added ∧
    List.Forall₂ (fun (e : SearchField × SearchOp) c => ∀ row : Text → Option V,
      c.Selects den like row ↔
        e.2.Relation like (row e.1.column) ((e.1.typed P e.2).map den)) (recognised s.search) added

/-! ## The added conditions -/

section Added

variable {W F : Type} {P : Parsers F} {R : RbatisWrapper W F} {conds : W → List (Cond F)}
  {f : SearchField} {op : SearchOp}

theorem exists_map_some {α : Type} {xs : List (Option α)} (h : ∀ x ∈ xs, x.isSome = true) :
    ∃ ys, xs = List.map some ys := by
  induction xs with
  | nil => exact ⟨[], rfl⟩
  | cons x xs ih =>
    rw [List.forall_mem_cons] at h
    obtain ⟨y, rfl⟩ := Option.isSome_iff_exists.mp h.1
    obtain ⟨ys, rfl⟩ := ih h.2
    exact ⟨y :: ys, rfl⟩

theorem reduceOption_map_some {α : Type} (ys : List α) : (ys.map some).reduceOption = ys := by
  induction ys with
  | nil => rfl
  | cons y ys ih => rw [List.map_cons, List.reduceOption_cons_of_some, ih]

/-- How many values an operator takes, if that is fixed. -/
def SearchOp.arity : SearchOp → Option ℕ
  | eq | ne | gt | egt | lt | elt | like | notLike => some 1
  | range | notRange => some 2
  | in_ | notIn => none
  | null | notNull => some 0

/-- **The values of a parsable entry** are its typed values. -/
theorem values_of_parsable (h : f.Parsable P) (hop : f.op = some op) :
    f.values P op = some ((f.typed P op).map some) ∧
      ∀ n ∈ op.arity, (f.typed P op).length = n := by
  -- the typed values are read off the list of values
  have hlist : ∀ vs : List (SearchValue F), f.values P op = some (vs.map some) →
      (∀ n ∈ op.arity, vs.length = n) →
      f.values P op = some ((f.typed P op).map some) ∧
        ∀ n ∈ op.arity, (f.typed P op).length = n := by
    intro vs hvs hlen
    have htyped : f.typed P op = vs := by
      rw [SearchField.typed, hvs, Option.getD_some, reduceOption_map_some]
    rw [htyped]
    exact ⟨hvs, hlen⟩
  have hop' : f.ParsableAs P op := h op hop
  cases op with
  | in_ | notIn =>
    obtain ⟨vs, hvs⟩ := exists_map_some hop'
    refine hlist vs ?_ fun n hn => by cases hn
    rw [SearchField.values, hvs]
  | range | notRange =>
    obtain ⟨hlen, hsome⟩ := hop'
    obtain ⟨vs, hvs⟩ := exists_map_some hsome
    rw [hvs, List.length_map] at hlen
    obtain ⟨a, b, rest, rfl⟩ : ∃ a b rest, vs = a :: b :: rest := by
      rcases vs with _ | ⟨a, _ | ⟨b, rest⟩⟩
      · simp at hlen
      · simp at hlen
      · exact ⟨a, b, rest, rfl⟩
    refine hlist [a, b] ?_ fun n hn => by cases hn; rfl
    rw [SearchField.values, hvs]
    rfl
  | null | notNull => exact hlist [] rfl fun n hn => by cases hn; rfl
  | _ =>
    obtain ⟨v, hv⟩ := Option.isSome_iff_exists.mp hop'
    refine hlist [v] ?_ fun n hn => by cases hn; rfl
    rw [SearchField.values, hv]
    rfl

/-- The condition that an entry adds. -/
def entryCond (P : Parsers F) (e : SearchField × SearchOp) : Cond F :=
  ⟨e.2.method, e.1.column, (e.1.typed P e.2).map some⟩

/-- **The loop** adds the conditions of the entries. -/
theorem intoWrapperLoop_conds (hlaws : CondLaws R conds) {search : List SearchField}
    (h : ∀ f ∈ search, f.Parsable P) (wp : W) :
    ∃ wp', intoWrapperLoop P R search wp = some wp' ∧
      conds wp' = conds wp ++ (recognised search).map (entryCond P) := by
  induction search generalizing wp with
  | nil => exact ⟨wp, rfl, (List.append_nil _).symm⟩
  | cons f search ih =>
    rw [List.forall_mem_cons] at h
    rw [intoWrapperLoop_cons, recognised_cons]
    cases hop : f.op with
    | none => exact ih h.2 wp
    | some op =>
      obtain ⟨hvalues, -⟩ := values_of_parsable h.1 hop
      simp only [hvalues, Option.bind_some]
      obtain ⟨wp', hwp', hconds⟩ :=
        ih h.2 (R.call op.method (R.and wp) f.column ((f.typed P op).map some))
      refine ⟨wp', hwp', ?_⟩
      rw [hconds, hlaws.call, hlaws.and, List.append_assoc]
      rfl

variable {V : Type} [LinearOrder V]

/-- **One entry.** Its condition means what its operator says, unless that is `egt`: the rows where the
column has just the value are left out then. -/
theorem entryCond_iff (den : SearchValue F → V) (like : V → V → Prop) (h : f.Parsable P)
    (hop : f.op = some op) :
    (∀ row : Text → Option V, (entryCond P (f, op)).Selects den like row ↔
      op.Relation like (row f.column) ((f.typed P op).map den)) ↔ op ≠ .egt := by
  obtain ⟨-, hlen⟩ := values_of_parsable h hop
  unfold Cond.Selects entryCond
  generalize f.typed P op = vs at hlen
  have hone : op.arity = some 1 → ∃ v, vs = [v] := fun h1 => List.length_eq_one_iff.mp (hlen 1 h1)
  have htwo : op.arity = some 2 → ∃ a b, vs = [a, b] := fun h2 => List.length_eq_two.mp (hlen 2 h2)
  cases op with
  | egt =>
    obtain ⟨v, rfl⟩ := hone rfl
    refine iff_of_false (fun hall => ?_) (fun hne => hne rfl)
    have hrow := (hall fun _ => some (den v)).mpr (le_refl (den v))
    exact lt_irrefl (den v) hrow
  | in_ =>
    refine iff_of_true (fun row => ?_) (by simp)
    cases hx : row f.column with
    | none => exact Iff.rfl
    | some x =>
      simp only [SearchOp.method, WrapperMethod.Selects, SearchOp.Relation, List.mem_map,
        Option.some.injEq, exists_eq_right, eq_comm (a := x)]
  | notIn =>
    refine iff_of_true (fun row => ?_) (by simp)
    cases hx : row f.column with
    | none => exact Iff.rfl
    | some x =>
      simp only [SearchOp.method, WrapperMethod.Selects, SearchOp.Relation, List.mem_map,
        forall_exists_index, and_imp, forall_apply_eq_imp_iff₂, Option.some.injEq, exists_eq_left',
        not_exists, not_and, eq_comm (a := x), ne_eq]
  | range =>
    obtain ⟨a, b, rfl⟩ := htwo rfl
    refine iff_of_true (fun row => ?_) (by simp)
    cases row f.column <;> exact Iff.rfl
  | notRange =>
    obtain ⟨a, b, rfl⟩ := htwo rfl
    refine iff_of_true (fun row => ?_) (by simp)
    cases row f.column with
    | none => exact Iff.rfl
    | some x =>
      simp only [SearchOp.method, WrapperMethod.Selects, SearchOp.Relation, List.map_cons,
        List.map_nil, Option.some.injEq, exists_eq_left', not_and_or, not_le]
  | null | notNull =>
    refine iff_of_true (fun row => ?_) (by simp)
    cases row f.column <;> exact Iff.rfl
  | _ =>
    obtain ⟨v, rfl⟩ := hone rfl
    refine iff_of_true (fun row => ?_) (by simp)
    cases row f.column <;> exact Iff.rfl

end Added

/-- **Meaning of a search.** For every search whose values parse and whose ranges have two values, and
every wrapper: `into_wrapper` adds one condition for each entry with a known operator, in order, and each
condition selects the rows for which the relation of the operator holds between the column and the
typed values, just when no entry has the operator `egt`. -/
theorem adds_iff {W F V : Type} [LinearOrder V] (P : Parsers F) {R : RbatisWrapper W F}
    {conds : W → List (Cond F)} (hlaws : CondLaws R conds) (den : SearchValue F → V)
    (like : V → V → Prop) (s : CommonSearch) (h : ∀ f ∈ s.search, f.Parsable P) (wp : W) :
    Adds P R conds den like s wp ↔ ∀ f ∈ s.search, f.op ≠ some .egt := by
  obtain ⟨wp', hwp', hconds⟩ := intoWrapperLoop_conds hlaws h wp
  have hentries : (∀ e ∈ recognised s.search, e.2 ≠ .egt) ↔ ∀ f ∈ s.search, f.op ≠ some .egt := by
    constructor
    · intro hall f hf hop
      exact hall (f, .egt) (mem_recognised.mpr ⟨hf, hop⟩) rfl
    · rintro hall ⟨f, op⟩ he
      obtain ⟨hf, hop⟩ := mem_recognised.mp he
      exact fun hegt => hall f hf (hegt ▸ hop)
  rw [← hentries]
  have hone : ∀ e ∈ recognised s.search, ((∀ row : Text → Option V,
      (entryCond P e).Selects den like row ↔
        e.2.Relation like (row e.1.column) ((e.1.typed P e.2).map den)) ↔ e.2 ≠ .egt) := by
    rintro ⟨f, op⟩ he
    obtain ⟨hf, hop⟩ := mem_recognised.mp he
    exact entryCond_iff den like (h f hf) hop
  rw [← forall₂_congr hone]
  constructor
  · rintro ⟨wp'', added, hwp'', hadded, hall⟩
    obtain rfl : wp' = wp'' := Option.some.inj (hwp'.symm.trans hwp'')
    rw [hconds] at hadded
    rwa [← List.append_cancel_left hadded, List.forall₂_map_right_iff, List.forall₂_same] at hall
  · intro hall
    refine ⟨wp', _, hwp', hconds, ?_⟩
    rwa [List.forall₂_map_right_iff, List.forall₂_same]

/-- The wrapper as its list of conditions. -/
def condWrapper : RbatisWrapper (List (Cond Unit)) Unit where
  and wp := wp
  call m wp column vs := wp ++ [⟨m, column, vs⟩]

theorem condWrapper_laws : CondLaws condWrapper id := ⟨fun _ => rfl, fun _ _ _ _ => rfl⟩

/-- The number of an integer value. -/
def intValue : SearchValue Unit → ℤ
  | .int64 n => n
  | _ => 0

/-- An upper-case operator, a range and an unknown operator. -/
def mixedSearch : CommonSearch where
  search := [⟨some ['a'], some "EQ".toList, some "Integer".toList, some "5".toList⟩,
    ⟨some ['b'], some "range".toList, some "integer".toList, some "-1,+9".toList⟩,
    ⟨some ['c'], some "between".toList, none, none⟩]

theorem adds_mixedSearch :
    mixedSearch.intoWrapper noParsers condWrapper [] = some [⟨.eq, ['a'], [some (.int64 5)]⟩,
      ⟨.between, ['b'], [some (.int64 (-1)), some (.int64 9)]⟩] ∧
    Adds noParsers condWrapper id intValue (· = ·) mixedSearch [] := by
  refine ⟨by decide +kernel,
    (adds_iff noParsers condWrapper_laws intValue (· = ·) mixedSearch ?_ []).mpr ?_⟩
  · decide +kernel
  · decide +kernel

/-- `a ≥ 5`, as a client writes it. -/
def egtSearch : CommonSearch where
  search := [⟨some ['a'], some "egt".toList, some "integer".toList, some "5".toList⟩]

theorem not_adds_egtSearch :
    egtSearch.intoWrapper noParsers condWrapper [] = some [⟨.gt, ['a'], [some (.int64 5)]⟩] ∧
    ¬ Adds noParsers condWrapper id intValue (· = ·) egtSearch [] := by
  have hadded : egtSearch.intoWrapper noParsers condWrapper [] =
      some [⟨.gt, ['a'], [some (.int64 5)]⟩] := by decide +kernel
  refine ⟨hadded, ?_⟩
  rintro ⟨wp', added, hwp', hconds, hall⟩
  cases hadded.symm.trans hwp'
  obtain rfl : added = [⟨.gt, ['a'], [some (.int64 5)]⟩] := hconds.symm
  -- the row with the value itself
  have hrecognised : recognised egtSearch.search = [(egtSearch.search.head (by decide), .egt)] := by
    decide +kernel
  rw [hrecognised, List.forall₂_cons] at hall
  have hrow := (hall.1 fun _ => some 5).mpr (show (5 : ℤ) ≥ 5 from le_rfl)
  exact lt_irrefl (5 : ℤ) hrow

end ChimesUtils
