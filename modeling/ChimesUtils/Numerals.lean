import ChimesUtils.Lib.Token
import ChimesUtils.Rust

/-!
# Integers of the source

The ranges of the signed types, the narrowing cast, and the parsing functions of the integer types.

* `asI32_eq_self_iff`: the cast to `i32` keeps just the values of `i32`;
* `parseI64_numeral`, `parseUnsigned_numeral`: what parsing makes of the decimal digits of an integer.
-/

namespace ChimesUtils

open Lib

/-! ## Ranges -/

/-- A value of the type `i64`. -/
def IsI64 (x : ℤ) : Prop := -9223372036854775808 ≤ x ∧ x ≤ 9223372036854775807

instance (x : ℤ) : Decidable (IsI64 x) :=
  inferInstanceAs (Decidable (-9223372036854775808 ≤ x ∧ x ≤ 9223372036854775807))

/-- The type `i64`. -/
abbrev I64 := {n : ℤ // IsI64 n}

instance : Zero I64 := ⟨⟨0, by decide⟩⟩

/-- An integer as a value of the type, if it is one. -/
def toI64 (n : ℤ) : Option I64 := if h : IsI64 n then some ⟨n, h⟩ else none

@[simp] theorem toI64_val (n : I64) : toI64 n.1 = some n := dif_pos n.2

/-- A value of the type `i32`. -/
def IsI32 (x : ℤ) : Prop := -2147483648 ≤ x ∧ x ≤ 2147483647

instance (x : ℤ) : Decidable (IsI32 x) :=
  inferInstanceAs (Decidable (-2147483648 ≤ x ∧ x ≤ 2147483647))

/-- A value of the type `u64`. -/
def IsU64 (x : ℤ) : Prop := 0 ≤ x ∧ x < 18446744073709551616

instance (x : ℤ) : Decidable (IsU64 x) :=
  inferInstanceAs (Decidable (0 ≤ x ∧ x < 18446744073709551616))

theorem IsI32.isI64 {x : ℤ} (h : IsI32 x) : IsI64 x := by
  unfold IsI32 at h
  unfold IsI64
  omega

/-- `x as i32` for an `i64`. -/
def asI32 (x : ℤ) : ℤ := (x + 2147483648) % 4294967296 - 2147483648

theorem asI32_eq_self_iff {x : ℤ} : asI32 x = x ↔ IsI32 x := by
  unfold asI32 IsI32
  omega

theorem asI32_eq_zero_iff {x : ℤ} : asI32 x = 0 ↔ x % 4294967296 = 0 := by
  unfold asI32
  omega

/-- `x as u32` for an `i64`. -/
def asU32 (x : ℤ) : ℕ := (x % 4294967296).toNat

/-! ## Parsing -/

/-- The number that a non-empty text of digits writes. -/
def parseDigits (s : Text) : Option ℕ :=
  if s.isEmpty || !s.all Char.isDigit then none
  else some (s.foldl (fun n c => 10 * n + (c.toNat - '0'.toNat)) 0)

/-- `str::parse::<i64>`. -/
def parseI64 (s : Text) : Option ℤ :=
  let signed : Option ℤ := match s with
    | '-' :: digits => (parseDigits digits).map fun n => -(n : ℤ)
    | '+' :: digits => (parseDigits digits).map fun n => (n : ℤ)
    | digits => (parseDigits digits).map fun n => (n : ℤ)
  signed.filter fun n => -9223372036854775808 ≤ n ∧ n ≤ 9223372036854775807

/-- `str::parse` for the unsigned type with the values below a bound. -/
def parseUnsigned (bound : ℕ) (s : Text) : Option ℕ :=
  let unsigned : Option ℕ := match s with
    | '+' :: digits => parseDigits digits
    | digits => parseDigits digits
  unsigned.filter fun n => n < bound

/-- `str::parse::<u64>`. -/
def parseU64 : Text → Option ℕ := parseUnsigned (2 ^ 64)

/-- `str::parse::<u32>`. -/
def parseU32 : Text → Option ℕ := parseUnsigned (2 ^ 32)

/-! ## Decimal digits -/

/-- The decimal digits of an integer, after its sign. -/
def numeral (n : ℤ) : Text :=
  if n < 0 then '-' :: decimal n.natAbs else decimal n.natAbs

theorem numeral_of_neg {n : ℤ} (h : n < 0) : numeral n = '-' :: decimal n.natAbs := if_pos h

theorem numeral_of_nonneg {n : ℤ} (h : 0 ≤ n) : numeral n = decimal n.natAbs := if_neg (by omega)

@[simp] theorem parseDigits_decimal (n : ℕ) : parseDigits (decimal n) = some n := by
  have hempty : (decimal n).isEmpty = false := by
    rw [List.isEmpty_eq_false_iff]
    exact decimal_ne_nil n
  have hall : (decimal n).all Char.isDigit = true :=
    List.all_eq_true.mpr fun _ hc => isDigit_of_mem_decimal hc
  unfold parseDigits
  rw [if_neg (by simp [hempty, hall])]
  exact congrArg some Nat.ofDigitChars_ten_toDigits

theorem parseDigits_cons_of_not_digit {c : Char} (h : c.isDigit = false) (s : Text) :
    parseDigits (c :: s) = none := by
  unfold parseDigits
  rw [if_pos (by simp [h])]

theorem decimal_eq_cons (n : ℕ) : ∃ d ds, decimal n = d :: ds ∧ d ≠ '+' ∧ d ≠ '-' := by
  cases h : decimal n with
  | nil => exact absurd h (decimal_ne_nil n)
  | cons d ds =>
    have hd : d.isDigit = true := isDigit_of_mem_decimal (n := n) (by rw [h]; exact List.mem_cons_self)
    refine ⟨d, ds, rfl, ?_, ?_⟩
    · rintro rfl
      exact absurd hd (by decide)
    · rintro rfl
      exact absurd hd (by decide)

theorem parseUnsigned_decimal (bound n : ℕ) :
    parseUnsigned bound (decimal n) = if n < bound then some n else none := by
  have hdigits := parseDigits_decimal n
  obtain ⟨d, ds, heq, hplus, -⟩ := decimal_eq_cons n
  rw [heq] at hdigits ⊢
  unfold parseUnsigned
  split
  · next hcons => exact absurd (List.cons.inj hcons).1 hplus
  · simp only [hdigits, Option.filter_some, decide_eq_true_eq]

theorem parseUnsigned_minus (bound : ℕ) (s : Text) : parseUnsigned bound ('-' :: s) = none := by
  show (parseDigits ('-' :: s)).filter (fun n => decide (n < bound)) = none
  rw [parseDigits_cons_of_not_digit (by decide), Option.filter_none]

/-- **Unsigned parsing.** The digits of an integer parse to it just when it is in range. -/
theorem parseUnsigned_numeral (bound : ℕ) (n : ℤ) :
    parseUnsigned bound (numeral n) =
      if 0 ≤ n ∧ n < bound then some n.toNat else none := by
  by_cases hn : n < 0
  · rw [numeral_of_neg hn, parseUnsigned_minus, if_neg (by omega)]
  · rw [numeral_of_nonneg (by omega), parseUnsigned_decimal]
    by_cases hb : n.natAbs < bound
    · rw [if_pos hb, if_pos (by omega)]
      exact congrArg some (by omega)
    · rw [if_neg hb, if_neg (by omega)]

/-- **Signed parsing.** The digits of an integer parse to it just when it is in range. -/
theorem parseI64_numeral (n : ℤ) : parseI64 (numeral n) = if IsI64 n then some n else none := by
  have hfilter : (some n).filter (fun n => -9223372036854775808 ≤ n ∧ n ≤ 9223372036854775807) =
      if IsI64 n then some n else none := by
    simp only [Option.filter_some, decide_eq_true_eq]
    rfl
  by_cases hn : n < 0
  · have habs : -(n.natAbs : ℤ) = n := by omega
    rw [numeral_of_neg hn, parseI64]
    simp only [parseDigits_decimal, Option.bind_eq_bind, Option.bind_some, Option.pure_def,
      Option.map_some, habs]
    exact hfilter
  · have habs : (n.natAbs : ℤ) = n := by omega
    have hdigits := parseDigits_decimal n.natAbs
    obtain ⟨d, ds, heq, hplus, hminus⟩ := decimal_eq_cons n.natAbs
    rw [numeral_of_nonneg (by omega)]
    rw [heq] at hdigits ⊢
    unfold parseI64
    split
    · next hcons => exact absurd (List.cons.inj hcons).1 hminus
    · next hcons => exact absurd (List.cons.inj hcons).1 hplus
    · simp only [hdigits, Option.bind_eq_bind, Option.bind_some, Option.pure_def, Option.map_some,
        habs]
      exact hfilter

end ChimesUtils
