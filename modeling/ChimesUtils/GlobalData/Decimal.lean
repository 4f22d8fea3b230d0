import ChimesUtils.Float

/-!
# Sums of decimals

`decimal_add` and `decimal_plus_decimal` add as `f64` and print with two decimals. The second goes through
`f64_to_decimal_v2`, which takes 0 for what is less than a hundredth.

* `decimalAdd_eq`, `decimalPlusDecimal_eq`: the two sums, of which the second is 0 if it is negative;
* `sums_iff`: when the two agree.
-/

namespace ChimesUtils

open Lib

/-- The functions of `rbatis::Decimal`, and the number that a decimal is. -/
structure Decimals where
  Decimal : Type
  value : Decimal → ℚ
  toString : Decimal → Text
  fromStr : Text → Option Decimal

/-- What the crate does: a decimal is printed as its value, and a text with two decimals is read as the
decimal that is printed so. Zero is printed without a sign. -/
structure Decimals.Laws (D : Decimals) : Prop where
  prints : ∀ d, signedValue decimalValue (D.toString d) = some (D.value d)
  reads : ∀ negative n, (n = 0 → negative = false) →
    ∃ d, D.fromStr (fixedText negative n) = some d ∧ D.toString d = fixedText negative n

section Source

variable (D : Decimals)

/-- `f64_to_decimal`. -/
def f64ToDecimal (f : F64) : Option D.Decimal := D.fromStr f.fixed2

/-- `f64_to_decimal_v2`. -/
def f64ToDecimalV2 (f : F64) : Option D.Decimal :=
  let cff := if f < .ofRat (1 / 100) then 0 else f
  D.fromStr cff.fixed2

/-- `decimal_to_f64`. -/
def decimalToF64 (dc : Option D.Decimal) : F64 :=
  (dc.map fun r => (parseF64 (D.toString r)).getD 0).getD 0

/-- `decimal_add`. -/
def decimalAdd (dc dc2 : Option D.Decimal) (ng : Bool) : Option D.Decimal :=
  let f1 := decimalToF64 D dc
  let f2 := decimalToF64 D dc2
  if ng then f64ToDecimal D (f1 - f2) else f64ToDecimal D (f1 + f2)

/-- `decimal_plus_decimal`. -/
def decimalPlusDecimal (val val2 : Option D.Decimal) : Option D.Decimal :=
  f64ToDecimalV2 D (decimalToF64 D val + decimalToF64 D val2)

end Source

/-- The value of an optional decimal; none counts as 0. -/
def Decimals.valueOf (D : Decimals) (dc : Option D.Decimal) : ℚ := dc.elim 0 D.value

/-- An integer with two decimals. -/
def Decimals.IsInteger (D : Decimals) (d : D.Decimal) (z : ℤ) : Prop :=
  D.value d = z ∧ D.toString d = numeral z ++ ".00".toList

/-! ## Integers as numbers of the source -/

theorem F64.ext {f g : F64} (h : f.val = g.val) : f = g := by
  cases f
  cases g
  cases h
  rfl

theorem fixed2_of_integer {f : F64} {z : ℤ} (h : f.val = z) :
    f.fixed2 = fixedText (z < 0) (100 * z.natAbs) := by
  have hsign : (f.val < 0) = (z < 0) := by
    rw [h]
    exact propext Int.cast_lt_zero
  have hscale : 100 * |f.val| = ((100 * z.natAbs : ℕ) : ℤ) := by
    rw [h]
    push_cast
    rfl
  unfold F64.fixed2
  rw [hscale, Rounding.nearestEven_intCast, Int.toNat_natCast]
  simp only [hsign]

theorem fixedText_integer (z : ℤ) :
    fixedText (z < 0) (100 * z.natAbs) = numeral z ++ ".00".toList := by
  have hhundredths : hundredths (100 * z.natAbs) = decimal z.natAbs ++ ".00".toList := by
    have htens : 100 * z.natAbs / 10 % 10 = 0 := by omega
    have hunits : 100 * z.natAbs % 10 = 0 := by omega
    unfold hundredths
    rw [Nat.mul_div_cancel_left _ (by decide), htens, hunits]
    rfl
  unfold fixedText
  rw [hhundredths]
  by_cases h : z < 0
  · rw [decide_eq_true h, if_pos rfl, numeral_of_neg h]
    rfl
  · rw [decide_eq_false h, if_neg Bool.false_ne_true, numeral_of_nonneg (not_lt.mp h), List.nil_append]

theorem val_ofRat_integer {z : ℤ} (h : |z| ≤ 2 ^ 51) : (F64.ofRat z).val = z :=
  F64.val_ofRat (F64.isExact_intCast (h.trans (by norm_num)))

theorem val_zero : (0 : F64).val = (0 : ℤ) := by
  rw [Int.cast_zero]
  exact Rounding.roundTo_zero 53

/-- **The threshold** lies between 0 and 1. -/
theorem threshold_bounds : 0 < (F64.ofRat (1 / 100)).val ∧ (F64.ofRat (1 / 100)).val < 1 := by
  obtain ⟨hlow, hhigh⟩ := abs_le.mp (Rounding.abs_roundTo_sub_le 53 (1 / 100))
  have hbound : |(1 / 100 : ℚ)| / 2 ^ 53 < 1 / 1000 := by norm_num
  show 0 < Rounding.roundTo 53 (1 / 100) ∧ Rounding.roundTo 53 (1 / 100) < 1
  constructor <;> linarith

theorem lt_threshold_iff {f : F64} {z : ℤ} (h : f.val = z) : f < .ofRat (1 / 100) ↔ z ≤ 0 := by
  obtain ⟨hpos, hone⟩ := threshold_bounds
  show f.val < (F64.ofRat (1 / 100)).val ↔ _
  rw [h]
  constructor
  · intro hlt
    have hcast : (z : ℚ) < (1 : ℤ) := by
      push_cast
      linarith
    exact Int.lt_add_one_iff.mp (Int.cast_lt.mp hcast)
  · intro hle
    have hcast : (z : ℚ) ≤ (0 : ℤ) := Int.cast_le.mpr hle
    push_cast at hcast
    linarith

section Laws

variable {D : Decimals} {f : F64} {z : ℤ}

/-- **The threshold at integers.** A negative integer is replaced by 0. -/
theorem f64ToDecimalV2_of_integer (h : f.val = z) :
    f64ToDecimalV2 D f = f64ToDecimal D (if 0 ≤ z then f else 0) := by
  unfold f64ToDecimalV2 f64ToDecimal
  rcases lt_trichotomy z 0 with hneg | rfl | hpos
  · rw [if_pos ((lt_threshold_iff h).mpr hneg.le), if_neg (not_le.mpr hneg)]
  · rw [if_pos ((lt_threshold_iff h).mpr le_rfl), if_pos le_rfl, F64.ext (h.trans val_zero.symm)]
  · rw [if_neg ((lt_threshold_iff h).not.mpr (not_le.mpr hpos)), if_pos hpos.le]

variable (hD : D.Laws)

include hD

theorem val_decimalToF64 {dc : Option D.Decimal} (h : D.valueOf dc = z) (hz : |z| ≤ 2 ^ 51) :
    (decimalToF64 D dc).val = z := by
  cases dc with
  | none =>
    have hzero : z = 0 := Int.cast_eq_zero.mp h.symm
    rw [hzero]
    exact val_zero
  | some r =>
    have hvalue : D.value r = z := h
    have hparse : parseF64 (D.toString r) = some (.ofRat z) := by
      rw [parseF64, hD.prints, hvalue, Option.map_some]
    rw [decimalToF64, Option.map_some, Option.getD_some, hparse, Option.getD_some, val_ofRat_integer hz]

theorem val_sum {dc dc2 : Option D.Decimal} {m n : ℤ} (hm : D.valueOf dc = m) (hn : D.valueOf dc2 = n)
    (hmb : |m| < 2 ^ 50) (hnb : |n| < 2 ^ 50) :
    (decimalToF64 D dc + decimalToF64 D dc2).val = (m + n : ℤ) := by
  have hsum : |m + n| ≤ 2 ^ 51 := by
    have htriangle := abs_add_le m n
    omega
  show (F64.ofRat ((decimalToF64 D dc).val + (decimalToF64 D dc2).val)).val = _
  rw [val_decimalToF64 hD hm (by omega), val_decimalToF64 hD hn (by omega), ← Int.cast_add,
    val_ofRat_integer hsum]

/-- **Printing and reading** an integer. -/
theorem f64ToDecimal_of_integer (h : f.val = z) :
    ∃ d, f64ToDecimal D f = some d ∧ D.IsInteger d z := by
  have hzero : 100 * z.natAbs = 0 → decide (z < 0) = false := by
    intro hz
    rw [decide_eq_false_iff_not]
    omega
  obtain ⟨d, hread, htext⟩ := hD.reads (z < 0) (100 * z.natAbs) hzero
  have hvalue := hD.prints d
  have hscale : ((100 * z.natAbs : ℕ) : ℚ) / 100 = |(z : ℚ)| := by
    push_cast
    rw [mul_div_cancel_left₀ _ (by norm_num), Nat.cast_natAbs, Int.cast_abs]
  rw [htext, signedValue_fixedText, hscale, Option.some_inj] at hvalue
  refine ⟨d, ?_, ?_, ?_⟩
  · rw [f64ToDecimal, fixed2_of_integer h, hread]
  · rw [← hvalue]
    by_cases hneg : z < 0
    · rw [decide_eq_true hneg, if_pos rfl, abs_of_neg (Int.cast_lt_zero.mpr hneg), neg_neg]
    · rw [decide_eq_false hneg, if_neg Bool.false_ne_true,
        abs_of_nonneg (by exact_mod_cast not_lt.mp hneg)]
  · rw [htext, fixedText_integer]

section Sums

variable {a b : Option D.Decimal} {m n : ℤ} (ha : D.valueOf a = m) (hb : D.valueOf b = n)
  (hm : |m| < 2 ^ 50) (hn : |n| < 2 ^ 50)

include ha hb hm hn

/-- **The first sum** is the exact one. -/
theorem decimalAdd_eq : ∃ d, decimalAdd D a b false = some d ∧ D.IsInteger d (m + n) :=
  f64ToDecimal_of_integer hD (val_sum hD ha hb hm hn)

/-- **The second sum**, with 0 for what is negative. -/
theorem decimalPlusDecimal_eq : decimalPlusDecimal D a b =
    if 0 ≤ m + n then decimalAdd D a b false else f64ToDecimal D 0 := by
  have hplus := f64ToDecimalV2_of_integer (D := D) (val_sum hD ha hb hm hn)
  rw [apply_ite (f64ToDecimal D)] at hplus
  exact hplus

theorem decimalPlusDecimal_ne (hneg : m + n < 0) :
    decimalPlusDecimal D a b ≠ decimalAdd D a b false := by
  obtain ⟨d, hadd, hvalue, -⟩ := decimalAdd_eq hD ha hb hm hn
  obtain ⟨d', hplus, hzero, -⟩ := f64ToDecimal_of_integer hD val_zero
  rw [decimalPlusDecimal_eq hD ha hb hm hn, if_neg (not_le.mpr hneg), hplus, hadd]
  intro hsame
  rw [Option.some_inj.mp hsame, hvalue, Int.cast_inj] at hzero
  omega

/-- **Sums.** Both functions give the exact sum of integers below `2 ^ 50` just when it is not negative. -/
theorem sums_iff :
    (decimalPlusDecimal D a b = decimalAdd D a b false ∧
      ∃ d, decimalAdd D a b false = some d ∧ D.IsInteger d (m + n)) ↔ 0 ≤ m + n := by
  constructor
  · rintro ⟨hsame, -⟩
    by_contra hneg
    exact decimalPlusDecimal_ne hD ha hb hm hn (not_le.mp hneg) hsame
  · intro hnonneg
    rw [decimalPlusDecimal_eq hD ha hb hm hn, if_pos hnonneg]
    exact ⟨rfl, decimalAdd_eq hD ha hb hm hn⟩

end Sums

end Laws

/-! ## Decimals as texts -/

/-- Decimals that keep the text they were read from. -/
def textDecimals : Decimals where
  Decimal := {s : Text // (signedValue decimalValue s).isSome}
  value d := (signedValue decimalValue d.1).get d.2
  toString d := d.1
  fromStr s := if h : (signedValue decimalValue s).isSome then some ⟨s, h⟩ else none

theorem isSome_fixedText (negative : Bool) (n : ℕ) :
    (signedValue decimalValue (fixedText negative n)).isSome := by
  rw [signedValue_fixedText]
  rfl

theorem textDecimals_laws : textDecimals.Laws where
  prints d := (Option.some_get d.2).symm
  reads negative n _ := ⟨⟨_, isSome_fixedText negative n⟩, dif_pos _, rfl⟩

/-- A decimal with two digits after the point. -/
def textDecimal (negative : Bool) (n : ℕ) : textDecimals.Decimal :=
  ⟨fixedText negative n, isSome_fixedText negative n⟩

theorem value_textDecimal (negative : Bool) (n : ℕ) :
    textDecimals.valueOf (some (textDecimal negative n)) =
      if negative then -(n / 100 : ℚ) else n / 100 :=
  Option.get_of_eq_some _ (signedValue_fixedText negative n)

/-- The decimals `12.00` and `-5.00`. -/
theorem sums_iff_seven :
    (decimalPlusDecimal textDecimals (some (textDecimal false 1200)) (some (textDecimal true 500)) =
        decimalAdd textDecimals (some (textDecimal false 1200)) (some (textDecimal true 500)) false ∧
      ∃ d, decimalAdd textDecimals (some (textDecimal false 1200)) (some (textDecimal true 500)) false =
        some d ∧ textDecimals.IsInteger d (12 + -5)) ↔ (0 : ℤ) ≤ 12 + -5 :=
  sums_iff textDecimals_laws (by rw [value_textDecimal]; norm_num)
    (by rw [value_textDecimal]; norm_num) (by decide) (by decide)

/-- For `-5.00` and nothing, the one sum is 0 and the other is not. -/
theorem sums_minus_five :
    decimalPlusDecimal textDecimals (some (textDecimal true 500)) none ≠
      decimalAdd textDecimals (some (textDecimal true 500)) none false := by
  have hvalue : textDecimals.valueOf (some (textDecimal true 500)) = (-5 : ℤ) := by
    rw [value_textDecimal]
    norm_num
  have hnone : textDecimals.valueOf none = (0 : ℤ) := Int.cast_zero.symm
  exact decimalPlusDecimal_ne textDecimals_laws hvalue hnone (by decide) (by decide) (by decide)

end ChimesUtils
