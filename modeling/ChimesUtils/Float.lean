import ChimesUtils.Lib.Rounding
import ChimesUtils.Numerals

/-!
# Floating point numbers of the source

`F64` has the finite values of `f64`, as rational numbers with 53 binary digits: an operation rounds its
exact result. There is no limit on the exponent, and no infinity, `NaN` or negative zero.

* `F64.val_ofRat`: what is exact;
* `signedValue_fixedText`: parsing reads what is printed with two decimals.

`F32` has 24 binary digits, and keeps the sign apart: the negative zero is printed with it.
-/

namespace ChimesUtils

open Lib

/-- `f64`. -/
structure F64 where
  val : ℚ
  rounded : Rounding.roundTo 53 val = val

namespace F64

/-- The value that is nearest to a number. -/
def ofRat (x : ℚ) : F64 := ⟨Rounding.roundTo 53 x, Rounding.roundTo_roundTo (by decide) x⟩

instance : Add F64 := ⟨fun a b => ofRat (a.val + b.val)⟩
instance : Sub F64 := ⟨fun a b => ofRat (a.val - b.val)⟩
instance : Mul F64 := ⟨fun a b => ofRat (a.val * b.val)⟩
/-- The divisor is not zero. -/
instance : Div F64 := ⟨fun a b => ofRat (a.val / b.val)⟩
instance (n : ℕ) : OfNat F64 n := ⟨ofRat n⟩
instance : LT F64 := ⟨fun a b => a.val < b.val⟩
instance : LE F64 := ⟨fun a b => a.val ≤ b.val⟩
instance (a b : F64) : Decidable (a < b) := inferInstanceAs (Decidable (a.val < b.val))
instance (a b : F64) : Decidable (a ≤ b) := inferInstanceAs (Decidable (a.val ≤ b.val))

/-- A number that needs no rounding. -/
def IsExact (x : ℚ) : Prop := ∃ m k : ℤ, |m| ≤ 2 ^ 53 ∧ x = m * 2 ^ k

variable {x : ℚ}

theorem isExact_intCast {n : ℤ} (h : |n| ≤ 2 ^ 53) : IsExact n :=
  ⟨n, 0, h, by rw [zpow_zero, mul_one]⟩

theorem isExact_natCast {n : ℕ} (h : n ≤ 2 ^ 53) : IsExact n :=
  isExact_intCast (n := n) (by rw [abs_of_nonneg (Int.natCast_nonneg n)]; exact_mod_cast h)

/-- **Exact values.** -/
theorem val_ofRat (h : IsExact x) : (ofRat x).val = x := by
  obtain ⟨m, k, hm, rfl⟩ := h
  exact Rounding.roundTo_eq_self (by decide) hm k

theorem val_ofRat_natCast {n : ℕ} (h : n ≤ 2 ^ 53) : (ofRat n).val = n := val_ofRat (isExact_natCast h)

theorem val_ofNat {n : ℕ} (h : n ≤ 2 ^ 53) : (OfNat.ofNat n : F64).val = n := val_ofRat_natCast h

end F64

/-! ## Printing -/

/-- A number of hundredths with two decimals. -/
def hundredths (n : ℕ) : Text :=
  decimal (n / 100) ++ ['.', Nat.digitChar (n / 10 % 10), Nat.digitChar (n % 10)]

/-- Hundredths after a sign. -/
def fixedText (negative : Bool) (n : ℕ) : Text := (if negative then ['-'] else []) ++ hundredths n

/-- The text of the format `{:.2}`. -/
def F64.fixed2 (f : F64) : Text :=
  fixedText (f.val < 0) (Rounding.nearestEven (100 * |f.val|)).toNat

theorem F64.fixed2_of_nonneg {f : F64} (h : 0 ≤ f.val) :
    f.fixed2 = hundredths (Rounding.nearestEven (100 * f.val)).toNat := by
  unfold fixed2 fixedText
  rw [decide_eq_false (not_lt.mpr h), if_neg Bool.false_ne_true, List.nil_append, abs_of_nonneg h]

/-! ## Parsing -/

/-- The value of digits, of which there may be none. -/
def digitsValue (s : Text) : Option ℕ := if s.isEmpty then some 0 else parseDigits s

/-- Digits with at most one point, and not the point alone. -/
def mantissaValue (s : Text) : Option ℚ :=
  let whole := s.takeWhile (· ≠ '.')
  let fraction := (s.dropWhile (· ≠ '.')).drop 1
  if whole.isEmpty && fraction.isEmpty then none
  else do
    let w ← digitsValue whole
    let f ← digitsValue fraction
    pure (w + f / 10 ^ fraction.length)

/-- A value after a sign, or without one. -/
def signedValue {α : Type} [Neg α] (value : Text → Option α) : Text → Option α
  | '-' :: s => (value s).map (- ·)
  | '+' :: s => value s
  | s => value s

/-- A mantissa, and an exponent if there is one. -/
def decimalValue (s : Text) : Option ℚ :=
  let mantissa := s.takeWhile fun c => c ≠ 'e' && c ≠ 'E'
  match s.dropWhile fun c => c ≠ 'e' && c ≠ 'E' with
  | [] => mantissaValue mantissa
  | _ :: exponent => do
    let m ← mantissaValue mantissa
    let e ← signedValue (fun digits => (parseDigits digits).map Int.ofNat) exponent
    pure (m * 10 ^ e)

/-- `str::parse::<f64>`, except for the names of the infinities and of `NaN`. -/
def parseF64 (s : Text) : Option F64 := (signedValue decimalValue s).map .ofRat

/-! ## Reading two decimals -/

theorem digitChar_spec : ∀ d < 10, (Nat.digitChar d).isDigit = true ∧
    (Nat.digitChar d).toNat = '0'.toNat + d := by decide

theorem parseDigits_pair {a b : ℕ} (ha : a < 10) (hb : b < 10) :
    parseDigits [Nat.digitChar a, Nat.digitChar b] = some (10 * a + b) := by
  obtain ⟨hda, hva⟩ := digitChar_spec a ha
  obtain ⟨hdb, hvb⟩ := digitChar_spec b hb
  unfold parseDigits
  rw [if_neg (by simp [hda, hdb])]
  simp only [List.foldl_cons, List.foldl_nil, hva, hvb, Nat.add_sub_cancel_left, mul_zero, zero_add]

theorem ne_of_isDigit {c d : Char} (h : c.isDigit = true) (hd : d.isDigit = false) : c ≠ d := by
  rintro rfl
  rw [h] at hd
  cases hd

theorem digitsValue_decimal (n : ℕ) : digitsValue (decimal n) = some n := by
  have hne : (decimal n).isEmpty = false := List.isEmpty_eq_false_iff.mpr (decimal_ne_nil n)
  rw [digitsValue, hne, if_neg Bool.false_ne_true, parseDigits_decimal]

theorem mantissaValue_hundredths (n : ℕ) : mantissaValue (hundredths n) = some (n / 100 : ℚ) := by
  have hdigits : ∀ c ∈ decimal (n / 100), decide (c ≠ '.') = true := fun c hc =>
    decide_eq_true (ne_of_isDigit (isDigit_of_mem_decimal hc) (by decide))
  have hwhole : (hundredths n).takeWhile (· ≠ '.') = decimal (n / 100) := by
    unfold hundredths
    rw [List.takeWhile_append_of_pos hdigits, List.takeWhile_cons_of_neg (by decide), List.append_nil]
  have hfraction : ((hundredths n).dropWhile (· ≠ '.')).drop 1 =
      [Nat.digitChar (n / 10 % 10), Nat.digitChar (n % 10)] := by
    unfold hundredths
    rw [List.dropWhile_append_of_pos hdigits, List.dropWhile_cons_of_neg (by decide)]
    rfl
  have hpair : digitsValue [Nat.digitChar (n / 10 % 10), Nat.digitChar (n % 10)] =
      some (10 * (n / 10 % 10) + n % 10) :=
    parseDigits_pair (Nat.mod_lt _ (by decide)) (Nat.mod_lt _ (by decide))
  have hsum : ((n / 100 : ℕ) : ℚ) + ((10 * (n / 10 % 10) + n % 10 : ℕ) : ℚ) / 10 ^ 2 = n / 100 := by
    have hnat : 100 * (n / 100) + (10 * (n / 10 % 10) + n % 10) = n := by omega
    have hcast : 100 * ((n / 100 : ℕ) : ℚ) + ((10 * (n / 10 % 10) + n % 10 : ℕ) : ℚ) = n := by
      exact_mod_cast hnat
    rw [← hcast]
    ring
  unfold mantissaValue
  simp only [hwhole, hfraction, digitsValue_decimal, hpair, List.isEmpty_cons, Bool.and_false,
    Bool.false_eq_true, if_false, Option.bind_eq_bind, Option.bind_some, Option.pure_def,
    List.length_cons, List.length_nil, zero_add]
  exact congrArg some hsum

theorem mem_hundredths {n : ℕ} {c : Char} (hc : c ∈ hundredths n) : c.isDigit = true ∨ c = '.' := by
  unfold hundredths at hc
  rw [List.mem_append, List.mem_cons, List.mem_pair] at hc
  rcases hc with hc | hc | hc | hc
  · exact .inl (isDigit_of_mem_decimal hc)
  · exact .inr hc
  · rw [hc]
    exact .inl (digitChar_spec _ (Nat.mod_lt _ (by decide))).1
  · rw [hc]
    exact .inl (digitChar_spec _ (Nat.mod_lt _ (by decide))).1

theorem decimalValue_hundredths (n : ℕ) : decimalValue (hundredths n) = some (n / 100 : ℚ) := by
  have hplain : ∀ c ∈ hundredths n, (decide (c ≠ 'e') && decide (c ≠ 'E')) = true := by
    intro c hc
    rw [Bool.and_eq_true, decide_eq_true_eq, decide_eq_true_eq]
    rcases mem_hundredths hc with hdigit | rfl
    · exact ⟨ne_of_isDigit hdigit (by decide), ne_of_isDigit hdigit (by decide)⟩
    · decide
  unfold decimalValue
  simp only [List.dropWhile_eq_nil_iff.mpr hplain, List.takeWhile_eq_self_iff.mpr hplain]
  exact mantissaValue_hundredths n

theorem hundredths_injective {n m : ℕ} (h : hundredths n = hundredths m) : n = m := by
  have hvalue := congrArg decimalValue h
  rw [decimalValue_hundredths, decimalValue_hundredths, Option.some_inj,
    div_left_inj' (by norm_num)] at hvalue
  exact_mod_cast hvalue

/-- **Reading two decimals.** -/
theorem signedValue_fixedText (negative : Bool) (n : ℕ) :
    signedValue decimalValue (fixedText negative n) =
      some (if negative then -(n / 100 : ℚ) else n / 100) := by
  have hvalue := decimalValue_hundredths n
  cases negative with
  | true =>
    show (decimalValue (hundredths n)).map (- ·) = some (-(n / 100 : ℚ))
    rw [hvalue, Option.map_some]
  | false =>
    obtain ⟨d, ds, heq, hplus, hminus⟩ := decimal_eq_cons (n / 100)
    have htext : fixedText false n =
        d :: (ds ++ ['.', Nat.digitChar (n / 10 % 10), Nat.digitChar (n % 10)]) := by
      show decimal (n / 100) ++ _ = _
      rw [heq, List.cons_append]
    have hsame : fixedText false n = hundredths n := rfl
    rw [if_neg Bool.false_ne_true, ← hvalue, ← hsame, htext]
    unfold signedValue
    split
    · next hcons => exact absurd (List.cons.inj hcons).1 hminus
    · next hcons => exact absurd (List.cons.inj hcons).1 hplus
    · rfl

/-! ## Single precision -/

/-- `f32`. -/
structure F32 where
  negative : Bool
  magnitude : ℚ
  rounded : Rounding.roundTo 24 magnitude = magnitude

namespace F32

def ofSign (negative : Bool) (x : ℚ) : F32 :=
  ⟨negative, Rounding.roundTo 24 x, Rounding.roundTo_roundTo (by decide) x⟩

instance : Neg F32 := ⟨fun f => { f with negative := !f.negative }⟩
instance : OfNat F32 0 := ⟨ofSign false 0⟩

/-- The text of the format `{:.2}`. -/
def fixed2 (f : F32) : Text :=
  fixedText f.negative (Rounding.nearestEven (100 * f.magnitude)).toNat

end F32

/-- `str::parse::<f32>`, except for the names of the infinities and of `NaN`. -/
def parseF32 (s : Text) : Option F32 :=
  (signedValue decimalValue s).map fun x => .ofSign (s.head? = some '-') |x|

theorem head?_fixedText (negative : Bool) (n : ℕ) :
    decide ((fixedText negative n).head? = some '-') = negative := by
  cases negative with
  | true => rfl
  | false =>
    obtain ⟨d, ds, heq, -, hminus⟩ := decimal_eq_cons (n / 100)
    show decide ((hundredths n).head? = some '-') = false
    rw [hundredths, heq, List.cons_append, List.head?_cons, decide_eq_false_iff_not]
    exact fun hd => hminus (Option.some.inj hd)

theorem parseF32_fixedText (negative : Bool) (n : ℕ) :
    parseF32 (fixedText negative n) = some (.ofSign negative (n / 100)) := by
  have hnonneg : (0 : ℚ) ≤ n / 100 := by positivity
  rw [parseF32, signedValue_fixedText, Option.map_some, head?_fixedText]
  cases negative with
  | true => rw [if_pos rfl, abs_neg, abs_of_nonneg hnonneg]
  | false => rw [if_neg Bool.false_ne_true, abs_of_nonneg hnonneg]

end ChimesUtils
