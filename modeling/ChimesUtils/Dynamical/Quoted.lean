import ChimesUtils.Dynamical.Intercept

/-!
# Marks in quotes

`rbatis_compatible_sql` numbers every `?` of a statement, also those of its string literals and of its
quoted identifiers.

* `regions`: the characters of a statement, each with the region it is in;
* `numberPlain`: the numbering of the marks of the plain text;
* `numbersPlain_iff`: when the interceptor numbers these marks and changes nothing else.
-/

namespace ChimesUtils

open Lib

/-- A region of a statement. -/
inductive Region where
  | plain
  /-- Between single quotes. -/
  | literal
  /-- Between double quotes. -/
  | identifier
  deriving DecidableEq

/-- The region after a character. -/
def Region.after : Region → Char → Region
  | .plain, c => if c = '\x27' then .literal else if c = '"' then .identifier else .plain
  | .literal, c => if c = '\x27' then .plain else .literal
  | .identifier, c => if c = '"' then .plain else .identifier

/-- The characters of a text that starts in a region. -/
def regions : Region → Text → List (Region × Char)
  | _, [] => []
  | r, c :: s => (r, c) :: regions (r.after c) s

theorem map_snd_regions (r : Region) (s : Text) : (regions r s).map Prod.snd = s := by
  induction s generalizing r with
  | nil => rfl
  | cons c s ih => rw [regions, List.map_cons, ih]

/-- The text with the marks of the plain regions numbered from `k` on. -/
def numberPlain : ℕ → List (Region × Char) → Text
  | _, [] => []
  | k, x :: xs => if x = (.plain, '?') then '$' :: decimal k ++ numberPlain (k + 1) xs
    else x.2 :: numberPlain k xs

/-- The interceptor numbers the marks of the plain text and changes nothing else, so that there are as
many new placeholders as marks. -/
def NumbersPlain (s : Text) : Prop :=
  rbatisCompatibleSql (.ok .postgres : Except Unit DriverType) s = numberPlain 1 (regions .plain s) ∧
    (rbatisCompatibleSql (.ok .postgres : Except Unit DriverType) s).count '$' =
      s.count '$' + (regions .plain s).count (.plain, '?')

/-- No mark is in quotes. -/
def MarksPlain (xs : List (Region × Char)) : Prop := ∀ x ∈ xs, x.2 = '?' → x.1 = .plain

instance (xs : List (Region × Char)) : Decidable (MarksPlain xs) :=
  inferInstanceAs (Decidable (∀ x ∈ xs, x.2 = '?' → x.1 = .plain))

theorem numberPlain_eq_numberMarks {xs : List (Region × Char)} (h : MarksPlain xs) (k : ℕ) :
    numberPlain k xs = numberMarks k (xs.map Prod.snd) := by
  induction xs generalizing k with
  | nil => rfl
  | cons x xs ih =>
    obtain ⟨hx, hxs⟩ := List.forall_mem_cons.mp h
    rw [numberPlain, List.map_cons, numberMarks]
    by_cases hmark : x.2 = '?'
    · have hplain : x = (.plain, '?') := Prod.ext (hx hmark) hmark
      rw [if_pos hplain, if_pos hmark, ih hxs]
    · have hplain : x ≠ (.plain, '?') := fun he => hmark (congrArg Prod.snd he)
      rw [if_neg hplain, if_neg hmark, ih hxs]

theorem mark_notMem_numberMarks (k : ℕ) (s : Text) : '?' ∉ numberMarks k s := by
  induction s generalizing k with
  | nil => exact List.not_mem_nil
  | cons c s ih =>
    rw [numberMarks]
    by_cases hc : c = '?'
    · rw [if_pos hc, List.mem_append, not_or]
      exact ⟨mark_notMem_dollarText k, ih (k + 1)⟩
    · rw [if_neg hc, List.mem_cons, not_or]
      exact ⟨Ne.symm hc, ih k⟩

theorem marksPlain_of_mark_notMem {xs : List (Region × Char)} {k : ℕ} (h : '?' ∉ numberPlain k xs) :
    MarksPlain xs := by
  induction xs generalizing k with
  | nil => exact List.forall_mem_nil _
  | cons x xs ih =>
    rw [numberPlain] at h
    by_cases hx : x = (.plain, '?')
    · rw [if_pos hx, List.mem_append, not_or] at h
      exact List.forall_mem_cons.mpr ⟨fun _ => congrArg Prod.fst hx, ih h.2⟩
    · rw [if_neg hx, List.mem_cons, not_or] at h
      exact List.forall_mem_cons.mpr ⟨fun hmark => absurd hmark.symm h.1, ih h.2⟩

theorem count_dollar_decimal (k : ℕ) : (decimal k).count '$' = 0 := by
  refine List.count_eq_zero.mpr fun h => ?_
  have hdigit := isDigit_of_mem_decimal h
  revert hdigit
  decide

theorem count_dollar_numberPlain (k : ℕ) (xs : List (Region × Char)) :
    (numberPlain k xs).count '$' = (xs.map Prod.snd).count '$' + xs.count (.plain, '?') := by
  induction xs generalizing k with
  | nil => rfl
  | cons x xs ih =>
    rw [numberPlain, List.map_cons, List.count_cons, List.count_cons]
    by_cases hx : x = (.plain, '?')
    · subst hx
      rw [if_pos rfl, List.cons_append, List.count_cons_self, List.count_append, count_dollar_decimal,
        ih]
      simp
      omega
    · rw [if_neg hx, List.count_cons, ih]
      simp [hx]
      omega

/-- **Marks and placeholders.** For every statement, the interceptor on Postgres replaces the `k`-th `?`
of the plain text by `$k` and leaves everything else just when no `?` is in a literal or in a quoted
identifier. -/
theorem numbersPlain_iff (s : Text) : NumbersPlain s ↔ MarksPlain (regions .plain s) := by
  unfold NumbersPlain
  rw [rbatisCompatibleSql_postgres]
  constructor
  · rintro ⟨heq, -⟩
    refine marksPlain_of_mark_notMem (k := 1) ?_
    rw [← heq]
    exact mark_notMem_numberMarks 1 s
  · intro h
    have heq := numberPlain_eq_numberMarks h 1
    rw [map_snd_regions] at heq
    refine ⟨heq.symm, ?_⟩
    rw [← heq, count_dollar_numberPlain, map_snd_regions]

example : MarksPlain (regions .plain "select a from t where b = ? and c = \x27x\x27".toList) := by
  decide +kernel

/-- A question in a literal, before a parameter. -/
def quotedQuestion : Text := "select \x27?\x27, ?".toList

/-- The literal becomes another one, and the parameter has the number 2. -/
theorem not_numbersPlain_quotedQuestion :
    rbatisCompatibleSql (.ok .postgres : Except Unit DriverType) quotedQuestion =
      "select \x27$1\x27, $2".toList ∧
    numberPlain 1 (regions .plain quotedQuestion) = "select \x27?\x27, $1".toList ∧
    ¬ NumbersPlain quotedQuestion := by
  have hcode : rbatisCompatibleSql (.ok .postgres : Except Unit DriverType) quotedQuestion =
      "select \x27$1\x27, $2".toList := by decide +kernel
  have hplain : numberPlain 1 (regions .plain quotedQuestion) = "select \x27?\x27, $1".toList := by
    decide +kernel
  refine ⟨hcode, hplain, fun h => ?_⟩
  rw [NumbersPlain, hcode, hplain] at h
  exact absurd h.1 (by decide)

end ChimesUtils
