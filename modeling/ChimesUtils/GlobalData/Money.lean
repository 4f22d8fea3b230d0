import ChimesUtils.GlobalData.Decimal

/-!
# Amounts of money

Amounts with two decimals, added, compared, made of integers and negated through `f64` and `f32`.

* `decimalAdd_cents`: sums and differences are exact to the last decimal, and a difference takes back
  a sum;
* `decimalCompare_cents`: the order of any two decimals is never reversed, and amounts compare as
  integers;
* `intToDecimal_add`: adding amounts is adding the integers they are made of;
* `makeDecimalNegative_cents`: the opposite of an amount, in single precision;
* `decimalMultDecimal_cents`: an amount times an integer, where nothing negative comes out.
-/

namespace ChimesUtils

open Lib

section Source

variable (D : Decimals)

/-- `decimal_compare`. -/
def decimalCompare (dc dc2 : Option D.Decimal) : ℤ :=
  let f1 := decimalToF64 D dc
  let f2 := decimalToF64 D dc2
  if f1.val = f2.val then 0 else if f2 < f1 then 1 else -1

/-- `int_to_decimal`. -/
def intToDecimal (val : Option ℤ) (mltp : F64) : Option D.Decimal :=
  val.bind fun v => f64ToDecimal D (.ofRat v / mltp)

/-- `decimal_mult_decimal`. -/
def decimalMultDecimal (val val2 : Option D.Decimal) : Option D.Decimal :=
  f64ToDecimalV2 D (decimalToF64 D val * decimalToF64 D val2)

/-- `f32_to_decimal`. -/
def f32ToDecimal (f : F32) : Option D.Decimal := D.fromStr f.fixed2

/-- `make_decimal_negative`. -/
def makeDecimalNegative (dc : Option D.Decimal) : Option D.Decimal :=
  match dc with
  | some r =>
    match parseF32 (D.toString r) with
    | some t => f32ToDecimal D (-t)
    | none => f32ToDecimal D 0
  | none => f32ToDecimal D 0

end Source

/-- The decimal is an amount of `z` hundredths, with two decimals. -/
structure Decimals.IsCents (D : Decimals) (d : D.Decimal) (z : ℤ) : Prop where
  value : D.value d = z / 100
  text : D.toString d = fixedText (z < 0) z.natAbs

/-! ## Rounded hundredths -/

section Rounded

variable {m n z : ℤ} {x y : ℚ}

theorem abs_div_hundred_le (hm : |m| ≤ 2 ^ 49) : |(m / 100 : ℚ)| ≤ 2 ^ 49 / 100 := by
  have hcast : |(m : ℚ)| ≤ 2 ^ 49 := by exact_mod_cast hm
  rw [abs_div, abs_of_pos (by norm_num : (0 : ℚ) < 100)]
  exact div_le_div_of_nonneg_right hcast (by norm_num)

theorem abs_roundTo_cents_le (hm : |m| ≤ 2 ^ 49) :
    |Rounding.roundTo 53 (m / 100) - m / 100| ≤ 1 / 1600 := by
  calc |Rounding.roundTo 53 (m / 100 : ℚ) - m / 100| ≤ |(m / 100 : ℚ)| / 2 ^ 53 :=
        Rounding.abs_roundTo_sub_le 53 _
    _ ≤ 2 ^ 49 / 100 / 2 ^ 53 := div_le_div_of_nonneg_right (abs_div_hundred_le hm) (by positivity)
    _ = 1 / 1600 := by norm_num

theorem abs_roundTo_sum_lt (hm : |m| ≤ 2 ^ 49) (hn : |n| ≤ 2 ^ 49) :
    |Rounding.roundTo 53 (Rounding.roundTo 53 (m / 100) + Rounding.roundTo 53 (n / 100)) -
      (m + n : ℤ) / 100| < 1 / 200 := by
  generalize hx : Rounding.roundTo 53 (m / 100 : ℚ) = x
  generalize hy : Rounding.roundTo 53 (n / 100 : ℚ) = y
  have hxm : |x - m / 100| ≤ 1 / 1600 := hx ▸ abs_roundTo_cents_le hm
  have hyn : |y - n / 100| ≤ 1 / 1600 := hy ▸ abs_roundTo_cents_le hn
  have hround := Rounding.abs_roundTo_sub_le 53 (x + y)
  obtain ⟨hm₁, hm₂⟩ := abs_le.mp (abs_div_hundred_le hm)
  obtain ⟨hn₁, hn₂⟩ := abs_le.mp (abs_div_hundred_le hn)
  obtain ⟨hx₁, hx₂⟩ := abs_le.mp hxm
  obtain ⟨hy₁, hy₂⟩ := abs_le.mp hyn
  have hsize : |x + y| / 2 ^ 53 ≤ 1 / 500 := by
    have hle : |x + y| ≤ 2 ^ 50 / 100 + 1 / 800 := abs_le.mpr ⟨by linarith, by linarith⟩
    calc |x + y| / 2 ^ 53 ≤ (2 ^ 50 / 100 + 1 / 800) / 2 ^ 53 :=
          div_le_div_of_nonneg_right hle (by positivity)
      _ ≤ 1 / 500 := by norm_num
  obtain ⟨hr₁, hr₂⟩ := abs_le.mp (hround.trans hsize)
  push_cast
  rw [abs_lt]
  constructor <;> linarith

theorem roundTo_sum_eq_zero (h : m + n = 0) :
    Rounding.roundTo 53 (Rounding.roundTo 53 (m / 100) + Rounding.roundTo 53 (n / 100)) = 0 := by
  have hneg : (n : ℚ) / 100 = -(m / 100) := by
    rw [eq_neg_of_add_eq_zero_right h]
    push_cast
    ring
  rw [hneg, Rounding.roundTo_neg, add_neg_cancel, Rounding.roundTo_zero]

theorem neg_iff_of_near (h : |x - z / 100| < 1 / 200) (hzero : z = 0 → x = 0) : x < 0 ↔ z < 0 := by
  obtain ⟨hlow, hhigh⟩ := abs_lt.mp h
  constructor
  · intro hneg
    by_contra hz
    rcases (not_lt.mp hz).lt_or_eq with hpos | hz0
    · have hcast : (1 : ℚ) ≤ z := by exact_mod_cast hpos
      linarith
    · exact hneg.ne (hzero hz0.symm)
  · intro hz
    have hcast : (z : ℚ) ≤ -1 := by exact_mod_cast Int.le_sub_one_of_lt hz
    linarith

theorem fixed2_of_near {f : F64} (h : |f.val - z / 100| < 1 / 200) (hzero : z = 0 → f.val = 0) :
    f.fixed2 = fixedText (z < 0) z.natAbs := by
  have hround : Rounding.nearestEven (100 * |f.val|) = z.natAbs := by
    refine Rounding.nearestEven_eq ?_
    have habs := (abs_abs_sub_abs_le f.val (z / 100)).trans_lt h
    rw [abs_div, abs_of_pos (by norm_num : (0 : ℚ) < 100)] at habs
    rw [Int.cast_natCast, Nat.cast_natAbs, Int.cast_abs]
    obtain ⟨hlow, hhigh⟩ := abs_lt.mp habs
    rw [abs_lt]
    constructor <;> linarith
  unfold F64.fixed2
  rw [hround, Int.toNat_natCast]
  simp only [neg_iff_of_near h hzero]

end Rounded

/-! ## Amounts -/

section Laws

variable {D : Decimals} {a b : Option D.Decimal} {d : D.Decimal} {m n z : ℤ} (hD : D.Laws)

include hD

/-- **Reading an amount.** -/
theorem exists_isCents {negative : Bool} {k : ℕ} (hneg : k = 0 → negative = false)
    (hz : z = if negative then -(k : ℤ) else k) :
    ∃ d, D.fromStr (fixedText negative k) = some d ∧ D.IsCents d z := by
  obtain ⟨d, hread, htext⟩ := hD.reads negative k hneg
  have hvalue := hD.prints d
  rw [htext, signedValue_fixedText, Option.some_inj] at hvalue
  refine ⟨d, hread, hvalue.symm.trans ?_, ?_⟩
  · rw [hz]
    cases negative with
    | true =>
      push_cast
      exact (neg_div _ _).symm
    | false => rfl
  · rw [htext, hz]
    cases negative with
    | true =>
      have hpos : k ≠ 0 := fun hk => by cases hneg hk
      have hlt : -(k : ℤ) < 0 := by omega
      rw [if_pos rfl, Int.natAbs_neg, Int.natAbs_natCast, decide_eq_true hlt]
    | false =>
      rw [if_neg Bool.false_ne_true, Int.natAbs_natCast, decide_eq_false (by omega)]

theorem val_decimalToF64_eq (a : Option D.Decimal) :
    (decimalToF64 D a).val = Rounding.roundTo 53 (D.valueOf a) := by
  cases a with
  | none => exact val_zero.trans (Int.cast_zero.trans (Rounding.roundTo_zero 53).symm)
  | some r =>
    rw [decimalToF64, Option.map_some, Option.getD_some, parseF64, hD.prints, Option.map_some,
      Option.getD_some]
    rfl

theorem exists_isCents_fixedText (z : ℤ) :
    ∃ d, D.fromStr (fixedText (z < 0) z.natAbs) = some d ∧ D.IsCents d z := by
  refine exists_isCents hD (fun hz => decide_eq_false (by omega)) ?_
  by_cases hneg : z < 0
  · rw [decide_eq_true hneg, if_pos rfl]
    omega
  · rw [decide_eq_false hneg, if_neg Bool.false_ne_true]
    omega

theorem decimalAdd_eq_fromStr (ha : D.valueOf a = m / 100) (hb : D.valueOf b = n / 100)
    (hm : |m| ≤ 2 ^ 49) (hn : |n| ≤ 2 ^ 49) {ng : Bool} (hz : z = m + if ng then -n else n) :
    decimalAdd D a b ng = D.fromStr (fixedText (z < 0) z.natAbs) := by
  have hsum : ∀ k : ℤ, |k| ≤ 2 ^ 49 → ∀ f : F64, f = .ofRat (Rounding.roundTo 53 (m / 100) +
      Rounding.roundTo 53 (k / 100)) →
      f64ToDecimal D f = D.fromStr (fixedText (m + k < 0) (m + k).natAbs) := by
    intro k hk f hf
    have hval : f.val = Rounding.roundTo 53 (Rounding.roundTo 53 (m / 100) +
        Rounding.roundTo 53 (k / 100)) := by rw [hf, F64.ofRat]
    have hnear : |f.val - (m + k : ℤ) / 100| < 1 / 200 := hval ▸ abs_roundTo_sum_lt hm hk
    rw [f64ToDecimal, fixed2_of_near hnear fun h0 => hval.trans (roundTo_sum_eq_zero h0)]
  rw [hz]
  cases ng with
  | false =>
    refine hsum n hn _ ?_
    show F64.ofRat ((decimalToF64 D a).val + (decimalToF64 D b).val) = _
    rw [val_decimalToF64_eq hD, val_decimalToF64_eq hD, ha, hb]
  | true =>
    refine hsum (-n) (by rwa [abs_neg]) _ ?_
    show F64.ofRat ((decimalToF64 D a).val - (decimalToF64 D b).val) = _
    rw [val_decimalToF64_eq hD, val_decimalToF64_eq hD, ha, hb, Int.cast_neg, neg_div,
      Rounding.roundTo_neg, sub_eq_add_neg]

theorem decimalAdd_isCents (ha : D.valueOf a = m / 100) (hb : D.valueOf b = n / 100)
    (hm : |m| ≤ 2 ^ 49) (hn : |n| ≤ 2 ^ 49) {ng : Bool} (hz : z = m + if ng then -n else n) :
    ∃ d, decimalAdd D a b ng = some d ∧ D.IsCents d z := by
  rw [decimalAdd_eq_fromStr hD ha hb hm hn hz]
  exact exists_isCents_fixedText hD z

/-- **Sums and differences** of amounts of at most `2 ^ 48` hundredths are exact, and a difference takes
back a sum. -/
theorem decimalAdd_cents (ha : D.valueOf a = m / 100) (hb : D.valueOf b = n / 100)
    (hm : |m| ≤ 2 ^ 48) (hn : |n| ≤ 2 ^ 48) :
    ∃ sum difference back, decimalAdd D a b false = some sum ∧ D.IsCents sum (m + n) ∧
      decimalAdd D a b true = some difference ∧ D.IsCents difference (m - n) ∧
      decimalAdd D (some sum) b true = some back ∧ D.IsCents back m := by
  have hm' : |m| ≤ 2 ^ 49 := hm.trans (by norm_num)
  have hn' : |n| ≤ 2 ^ 49 := hn.trans (by norm_num)
  obtain ⟨sum, hsum, hcents⟩ :=
    decimalAdd_isCents hD ha hb hm' hn' (show m + n = m + if false then -n else n from rfl)
  obtain ⟨difference, hdifference, hcents'⟩ :=
    decimalAdd_isCents hD ha hb hm' hn' (show m - n = m + if true then -n else n from sub_eq_add_neg m n)
  have htotal : |m + n| ≤ 2 ^ 49 := by
    have htriangle := abs_add_le m n
    omega
  obtain ⟨back, hback, hcents''⟩ :=
    decimalAdd_isCents (a := some sum) hD hcents.value hb htotal hn'
      (show m = m + n + if true then -n else n from (add_neg_cancel_right m n).symm)
  exact ⟨sum, difference, back, hsum, hcents, hdifference, hcents', hback, hcents''⟩

/-! ### Comparing -/

theorem decimalCompare_nonpos (h : D.valueOf a ≤ D.valueOf b) : decimalCompare D a b ≤ 0 := by
  have hle : (decimalToF64 D a).val ≤ (decimalToF64 D b).val := by
    rw [val_decimalToF64_eq hD, val_decimalToF64_eq hD]
    exact Rounding.roundTo_mono (by decide) h
  have hlt : ¬ decimalToF64 D b < decimalToF64 D a := not_lt.mpr hle
  unfold decimalCompare
  dsimp only
  split_ifs
  · exact le_rfl
  · decide

theorem decimalToF64_lt (ha : D.valueOf a = m / 100) (hb : D.valueOf b = n / 100)
    (hm : |m| ≤ 2 ^ 49) (hn : |n| ≤ 2 ^ 49) (h : m < n) :
    (decimalToF64 D a).val < (decimalToF64 D b).val := by
  have hcast : (m : ℚ) + 1 ≤ n := by exact_mod_cast h
  rw [val_decimalToF64_eq hD, val_decimalToF64_eq hD, ha, hb]
  obtain ⟨-, hx⟩ := abs_le.mp (abs_roundTo_cents_le hm)
  obtain ⟨hy, -⟩ := abs_le.mp (abs_roundTo_cents_le hn)
  linarith

/-- **Comparing.** The order of two decimals is never reversed, and amounts compare as integers. The first
part has no bound: parsing to `f64` is monotone also where it gives an infinity. -/
theorem decimalCompare_cents (a b : Option D.Decimal) :
    (D.valueOf a ≤ D.valueOf b → decimalCompare D a b ≤ 0) ∧
      ∀ m n : ℤ, |m| ≤ 2 ^ 49 → |n| ≤ 2 ^ 49 → D.valueOf a = m / 100 → D.valueOf b = n / 100 →
        decimalCompare D a b = (m - n).sign := by
  refine ⟨decimalCompare_nonpos hD, fun m n hm hn ha hb => ?_⟩
  unfold decimalCompare
  dsimp only
  rcases lt_trichotomy m n with hlt | rfl | hgt
  · have hval := decimalToF64_lt hD ha hb hm hn hlt
    have hnot : ¬ decimalToF64 D b < decimalToF64 D a := not_lt.mpr hval.le
    rw [if_neg hval.ne, if_neg hnot, Int.sign_eq_neg_one_of_neg (by omega)]
  · rw [val_decimalToF64_eq hD, val_decimalToF64_eq hD, ha, hb, if_pos rfl, sub_self, Int.sign_zero]
  · have hval := decimalToF64_lt hD hb ha hn hm hgt
    have hlt : decimalToF64 D b < decimalToF64 D a := hval
    rw [if_neg hval.ne', if_pos hlt, Int.sign_eq_one_of_pos (by omega)]

/-! ### Amounts from integers -/

omit hD in
theorem intToDecimal_eq_fromStr (hz : |z| ≤ 2 ^ 49) :
    intToDecimal D (some z) 100 = D.fromStr (fixedText (z < 0) z.natAbs) := by
  have hhundred : (100 : F64).val = 100 := F64.val_ofNat (n := 100) (by norm_num)
  have hval : (F64.ofRat z / 100 : F64).val = Rounding.roundTo 53 (z / 100) := by
    show Rounding.roundTo 53 ((F64.ofRat z).val / (100 : F64).val) = _
    rw [F64.val_ofRat (F64.isExact_intCast (hz.trans (by norm_num))), hhundred]
  have hnear : |(F64.ofRat z / 100 : F64).val - z / 100| < 1 / 200 := by
    rw [hval]
    exact (abs_roundTo_cents_le hz).trans_lt (by norm_num)
  rw [intToDecimal, Option.bind_some, f64ToDecimal, fixed2_of_near hnear fun h0 => ?_]
  rw [hval, h0, Int.cast_zero, zero_div, Rounding.roundTo_zero]

/-- **Amounts from integers.** Adding and subtracting the amounts is adding and subtracting the
integers, as long as these are at most `2 ^ 48`. -/
theorem intToDecimal_add (hm : |m| ≤ 2 ^ 48) (hn : |n| ≤ 2 ^ 48) (ng : Bool) :
    decimalAdd D (intToDecimal D (some m) 100) (intToDecimal D (some n) 100) ng =
      intToDecimal D (some (m + if ng then -n else n)) 100 := by
  have hm' : |m| ≤ 2 ^ 49 := hm.trans (by norm_num)
  have hn' : |n| ≤ 2 ^ 49 := hn.trans (by norm_num)
  have htotal : |m + if ng then -n else n| ≤ 2 ^ 49 := by
    have hsum := abs_add_le m n
    have hdiff := abs_sub m n
    cases ng with
    | false => exact hsum.trans (by omega)
    | true => exact (abs_add_le m (-n)).trans (by rw [abs_neg]; omega)
  obtain ⟨a, hread, ha⟩ := exists_isCents_fixedText hD m
  obtain ⟨b, hread', hb⟩ := exists_isCents_fixedText hD n
  rw [intToDecimal_eq_fromStr hm', intToDecimal_eq_fromStr hn', hread, hread',
    intToDecimal_eq_fromStr htotal]
  exact decimalAdd_eq_fromStr (a := some a) (b := some b) hD ha.value hb.value hm' hn' rfl

/-! ### Products -/

omit hD in
theorem abs_roundTo_mul_lt (hmn : |m * n| ≤ 2 ^ 49) :
    |Rounding.roundTo 53 (Rounding.roundTo 53 (m / 100) * n) - (m * n : ℤ) / 100| < 1 / 200 := by
  generalize hx : Rounding.roundTo 53 (m / 100 : ℚ) = x
  have hproduct : |(m / 100 : ℚ)| * |(n : ℚ)| ≤ 2 ^ 49 / 100 := by
    rw [← abs_mul, div_mul_eq_mul_div, ← Int.cast_mul]
    exact abs_div_hundred_le hmn
  have hxn : |x * n - (m * n : ℤ) / 100| ≤ 1 / 1600 := by
    have hsplit : x * n - (m * n : ℤ) / 100 = (x - m / 100) * n := by
      push_cast
      ring
    rw [hsplit, abs_mul, ← hx]
    calc |Rounding.roundTo 53 (m / 100 : ℚ) - m / 100| * |(n : ℚ)|
        ≤ |(m / 100 : ℚ)| / 2 ^ 53 * |(n : ℚ)| :=
          mul_le_mul_of_nonneg_right (Rounding.abs_roundTo_sub_le 53 _) (abs_nonneg _)
      _ = |(m / 100 : ℚ)| * |(n : ℚ)| / 2 ^ 53 := div_mul_eq_mul_div _ _ _
      _ ≤ 2 ^ 49 / 100 / 2 ^ 53 := div_le_div_of_nonneg_right hproduct (by positivity)
      _ = 1 / 1600 := by norm_num
  obtain ⟨hz₁, hz₂⟩ := abs_le.mp (abs_div_hundred_le hmn)
  obtain ⟨hx₁, hx₂⟩ := abs_le.mp hxn
  have hsize : |x * n| / 2 ^ 53 ≤ 1 / 1000 := by
    have hle : |x * n| ≤ 2 ^ 49 / 100 + 1 / 1600 := abs_le.mpr ⟨by linarith, by linarith⟩
    calc |x * n| / 2 ^ 53 ≤ (2 ^ 49 / 100 + 1 / 1600) / 2 ^ 53 :=
          div_le_div_of_nonneg_right hle (by positivity)
      _ ≤ 1 / 1000 := by norm_num
  obtain ⟨hr₁, hr₂⟩ := abs_le.mp ((Rounding.abs_roundTo_sub_le 53 (x * n)).trans hsize)
  rw [abs_lt]
  constructor <;> linarith

omit hD in
theorem roundTo_mul_of_eq_one (h : m * n = 1) :
    Rounding.roundTo 53 (Rounding.roundTo 53 (m / 100) * n) = Rounding.roundTo 53 (1 / 100) := by
  rcases Int.mul_eq_one_iff_eq_one_or_neg_one.mp h with ⟨rfl, rfl⟩ | ⟨rfl, rfl⟩
  · rw [Int.cast_one, mul_one, Rounding.roundTo_roundTo (by decide)]
  · rw [Int.cast_neg, Int.cast_one, neg_div, Rounding.roundTo_neg, mul_neg, mul_one, neg_neg,
      Rounding.roundTo_roundTo (by decide)]

/-- **Products.** An amount times an integer is exact, with 0 for what is negative. The bounds on the two
factors keep their `f64` finite, also where one of them is zero. -/
theorem decimalMultDecimal_cents (ha : D.valueOf a = m / 100) (hb : D.valueOf b = n)
    (_hm : |m| ≤ 2 ^ 49) (hn : |n| ≤ 2 ^ 49) (hmn : |m * n| ≤ 2 ^ 49) :
    ∃ d, decimalMultDecimal D a b = some d ∧ D.IsCents d (max (m * n) 0) := by
  generalize hf : decimalToF64 D a * decimalToF64 D b = f
  have hval : f.val = Rounding.roundTo 53 (Rounding.roundTo 53 (m / 100) * n) := by
    rw [← hf]
    show Rounding.roundTo 53 ((decimalToF64 D a).val * (decimalToF64 D b).val) = _
    rw [val_decimalToF64_eq hD a, ha, val_decimalToF64 hD hb (hn.trans (by norm_num))]
  have hnear : |f.val - (m * n : ℤ) / 100| < 1 / 200 := hval ▸ abs_roundTo_mul_lt hmn
  have hthreshold : (F64.ofRat (1 / 100)).val = Rounding.roundTo 53 (1 / 100) := by rw [F64.ofRat]
  obtain ⟨hpos, -⟩ := threshold_bounds
  obtain ⟨hlow, hhigh⟩ := abs_lt.mp hnear
  have hsmall : (F64.ofRat (1 / 100)).val ≤ 3 / 200 := by
    have herror := (abs_le.mp (Rounding.abs_roundTo_sub_le 53 (1 / 100))).2
    have hbound : |(1 / 100 : ℚ)| / 2 ^ 53 < 1 / 1000 := by norm_num
    rw [hthreshold]
    linarith
  have hresult : (if f < .ofRat (1 / 100) then 0 else f : F64).fixed2 =
      fixedText (max (m * n) 0 < 0) (max (m * n) 0).natAbs := by
    by_cases hz : m * n ≤ 0
    · have hlt : f < .ofRat (1 / 100) := by
        have hcast : ((m * n : ℤ) : ℚ) ≤ 0 := by exact_mod_cast hz
        show f.val < (F64.ofRat (1 / 100)).val
        rcases hz.lt_or_eq with hneg | hzero
        · have hle : ((m * n : ℤ) : ℚ) ≤ -1 := by exact_mod_cast Int.le_sub_one_of_lt hneg
          linarith
        · rcases mul_eq_zero.mp hzero with rfl | rfl
          · rw [hval, Int.cast_zero, zero_div, Rounding.roundTo_zero, zero_mul, Rounding.roundTo_zero]
            exact hpos
          · rw [hval, Int.cast_zero, mul_zero, Rounding.roundTo_zero]
            exact hpos
      rw [if_pos hlt, max_eq_right hz]
      exact fixed2_of_integer val_zero
    · have hge : ¬ f < .ofRat (1 / 100) := by
        show ¬ f.val < (F64.ofRat (1 / 100)).val
        rcases (Int.lt_iff_add_one_le.mp (not_le.mp hz)).lt_or_eq with hmore | hone
        · have hle : (2 : ℚ) ≤ (m * n : ℤ) := by exact_mod_cast hmore
          exact not_lt.mpr (by linarith)
        · rw [hval, hthreshold, roundTo_mul_of_eq_one (by omega)]
          exact lt_irrefl _
      rw [if_neg hge, max_eq_left (not_le.mp hz).le]
      exact fixed2_of_near hnear fun h0 => absurd h0.le hz
  have htext : decimalMultDecimal D a b =
      D.fromStr (fixedText (max (m * n) 0 < 0) (max (m * n) 0).natAbs) := by
    rw [← hresult, ← hf]
    rfl
  rw [htext]
  exact exists_isCents_fixedText hD _

/-! ### The opposite -/

omit hD in
theorem makeDecimalNegative_eq_fromStr (hd : D.toString d = fixedText (m < 0) m.natAbs)
    (hm : |m| < 2 ^ 23) :
    makeDecimalNegative D (some d) = D.fromStr (fixedText (!decide (m < 0)) m.natAbs) := by
  have hround : Rounding.nearestEven (100 * Rounding.roundTo 24 (m.natAbs / 100)) = m.natAbs := by
    refine Rounding.nearestEven_eq ?_
    have herror := Rounding.abs_roundTo_sub_le 24 (m.natAbs / 100 : ℚ)
    have hsize : (m.natAbs : ℚ) < 2 ^ 23 := by
      rw [Int.abs_eq_natAbs] at hm
      exact_mod_cast hm
    have hsmall : |(m.natAbs / 100 : ℚ)| / 2 ^ 24 < 1 / 200 := by
      rw [abs_of_nonneg (by positivity)]
      calc (m.natAbs / 100 : ℚ) / 2 ^ 24 < 2 ^ 23 / 100 / 2 ^ 24 := by gcongr
        _ = 1 / 200 := by norm_num
    obtain ⟨hlow, hhigh⟩ := abs_lt.mp (herror.trans_lt hsmall)
    rw [Int.cast_natCast, abs_lt]
    constructor <;> linarith
  have hparse : parseF32 (D.toString d) = some (.ofSign (m < 0) (m.natAbs / 100)) := by
    rw [hd, parseF32_fixedText]
  unfold makeDecimalNegative
  dsimp only
  rw [hparse]
  show D.fromStr (fixedText (!decide (m < 0))
    (Rounding.nearestEven (100 * Rounding.roundTo 24 (m.natAbs / 100))).toNat) = _
  rw [hround, Int.toNat_natCast]

/-- **The opposite.** Below `83886.08`, the opposite of an amount is exact, and the opposite of the
opposite is the amount. -/
theorem makeDecimalNegative_cents (hd : D.IsCents d m) (hm : |m| < 2 ^ 23) (hne : m ≠ 0) :
    ∃ opposite back, makeDecimalNegative D (some d) = some opposite ∧ D.IsCents opposite (-m) ∧
      makeDecimalNegative D (some opposite) = some back ∧ D.IsCents back m := by
  have hneg : ∀ (d : D.Decimal) (k : ℤ), D.IsCents d k → |k| < 2 ^ 23 → k ≠ 0 →
      ∃ d', makeDecimalNegative D (some d) = some d' ∧ D.IsCents d' (-k) := by
    intro d k hd hk hne
    rw [makeDecimalNegative_eq_fromStr hd.text hk]
    refine exists_isCents hD (fun h0 => absurd (Int.natAbs_eq_zero.mp h0) hne) ?_
    by_cases hlt : k < 0
    · rw [decide_eq_true hlt, Bool.not_true, if_neg Bool.false_ne_true]
      omega
    · rw [decide_eq_false hlt, Bool.not_false, if_pos rfl]
      omega
  obtain ⟨opposite, hopposite, hcents⟩ := hneg d m hd hm hne
  obtain ⟨back, hback, hcents'⟩ := hneg opposite (-m) hcents (by rwa [abs_neg]) (neg_ne_zero.mpr hne)
  rw [neg_neg] at hcents'
  exact ⟨opposite, back, hopposite, hcents, hback, hcents'⟩

end Laws

/-! ## Amounts as texts -/

/-- The amounts `0.10`, `0.20` and `-0.30` are no binary fractions. -/
theorem decimalAdd_cents_tenths : ∃ sum difference back : textDecimals.Decimal,
    decimalAdd textDecimals (some (textDecimal false 10)) (some (textDecimal true 30)) false =
        some sum ∧ textDecimals.IsCents sum (10 + -30) ∧
      decimalAdd textDecimals (some (textDecimal false 10)) (some (textDecimal true 30)) true =
        some difference ∧ textDecimals.IsCents difference (10 - -30) ∧
      decimalAdd textDecimals (some sum) (some (textDecimal true 30)) true = some back ∧
      textDecimals.IsCents back 10 :=
  decimalAdd_cents textDecimals_laws (by rw [value_textDecimal]; norm_num)
    (by rw [value_textDecimal]; norm_num) (by decide) (by decide)

theorem decimalCompare_cents_tenths :
    (textDecimals.valueOf (some (textDecimal true 30)) ≤
        textDecimals.valueOf (some (textDecimal false 10)) →
      decimalCompare textDecimals (some (textDecimal true 30)) (some (textDecimal false 10)) ≤ 0) ∧
    ∀ m n : ℤ, |m| ≤ 2 ^ 49 → |n| ≤ 2 ^ 49 →
      textDecimals.valueOf (some (textDecimal true 30)) = m / 100 →
      textDecimals.valueOf (some (textDecimal false 10)) = n / 100 →
      decimalCompare textDecimals (some (textDecimal true 30)) (some (textDecimal false 10)) =
        (m - n).sign :=
  decimalCompare_cents textDecimals_laws _ _

theorem intToDecimal_add_tenths :
    decimalAdd textDecimals (intToDecimal textDecimals (some 10) 100)
        (intToDecimal textDecimals (some (-30)) 100) true =
      intToDecimal textDecimals (some (10 + if true then -(-30) else -30)) 100 :=
  intToDecimal_add textDecimals_laws (by decide) (by decide) true

theorem decimalMultDecimal_cents_tenths : ∃ d : textDecimals.Decimal,
    decimalMultDecimal textDecimals (some (textDecimal false 10)) (some (textDecimal false 300)) =
      some d ∧ textDecimals.IsCents d (max (10 * 3) 0) :=
  decimalMultDecimal_cents textDecimals_laws (by rw [value_textDecimal]; norm_num)
    (by rw [value_textDecimal]; norm_num) (by decide) (by decide) (by decide)

theorem makeDecimalNegative_cents_tenths : ∃ opposite back : textDecimals.Decimal,
    makeDecimalNegative textDecimals (some (textDecimal true 30)) = some opposite ∧
      textDecimals.IsCents opposite (-(-30)) ∧
      makeDecimalNegative textDecimals (some opposite) = some back ∧
      textDecimals.IsCents back (-30) := by
  have hvalue : textDecimals.value (textDecimal true 30) = ((-30 : ℤ) : ℚ) / 100 := by
    refine (value_textDecimal true 30).trans ?_
    norm_num
  exact makeDecimalNegative_cents textDecimals_laws ⟨hvalue, rfl⟩ (by decide) (by decide)

end ChimesUtils
