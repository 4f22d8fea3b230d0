import ChimesUtils.Float

/-!
# The size of a file as a text

`file_size_format` divides by the largest unit of which there is at least one, and prints two decimals.
The unit is chosen before the rounding.

* `fileSizeFormat_eq`: the text for a size between a unit and the next;
* `isShown_fileSizeFormat_iff`: for which sizes the text does not show 1024 of a unit.
-/

namespace ChimesUtils

open Lib

/-- `file_size_format`. -/
def fileSizeFormat (len : ℕ) : Text :=
  let t := F64.ofRat len / (1024 * 1024 * 1024 * 1024)
  if 1 ≤ t then t.fixed2 ++ "TB".toList
  else
    let g := F64.ofRat len / (1024 * 1024 * 1024)
    if 1 ≤ g then g.fixed2 ++ "GB".toList
    else
      let m := F64.ofRat len / (1024 * 1024)
      if 1 ≤ m then m.fixed2 ++ "MB".toList
      else
        let k := F64.ofRat len / 1024
        if 1 ≤ k then k.fixed2 ++ "KB".toList
        else decimal len ++ " B".toList

/-! ## Units -/

/-- The units of the text. -/
inductive SizeUnit where
  | kb
  | mb
  | gb
  | tb

namespace SizeUnit

def name : SizeUnit → Text
  | kb => "KB".toList
  | mb => "MB".toList
  | gb => "GB".toList
  | tb => "TB".toList

/-- The power of 1024 that the unit is. -/
def power : SizeUnit → ℕ
  | kb => 1
  | mb => 2
  | gb => 3
  | tb => 4

def size (u : SizeUnit) : ℕ := 1024 ^ u.power

/-- The product that the source divides by. -/
def product : SizeUnit → F64
  | kb => 1024
  | mb => 1024 * 1024
  | gb => 1024 * 1024 * 1024
  | tb => 1024 * 1024 * 1024 * 1024

end SizeUnit

/-- What a text shows of a size: a number of hundredths of a unit, at least one and less than 1024 of
it, that differs from the size by at most half of the last decimal. -/
def IsShown (len : ℕ) (text : Text) : Prop :=
  ∃ (n : ℕ) (u : SizeUnit), text = hundredths n ++ u.name ∧ 100 ≤ n ∧ n < 102400 ∧
    |(n / 100 * u.size - len : ℚ)| ≤ u.size / 200

/-- A size that rounds up to 1024 of a unit. -/
def RoundsUp (len : ℕ) : Prop :=
  ∃ k ∈ [1, 2, 3], 204799 * 1024 ^ k ≤ 200 * len ∧ len < 1024 ^ (k + 1)

/-! ## Quotients -/

namespace F64

theorem val_mul_natCast {a b : F64} {m n : ℕ} (ha : a.val = m) (hb : b.val = n) (h : m * n ≤ 2 ^ 53) :
    (a * b).val = (m * n : ℕ) := by
  have hexact := val_ofRat_natCast h
  show (ofRat (a.val * b.val)).val = _
  rw [ha, hb]
  exact_mod_cast hexact

end F64

namespace SizeUnit

theorem size_eq (u : SizeUnit) : u.size = 2 ^ (10 * u.power) := by
  unfold size
  rw [pow_mul]
  norm_num

theorem val_product (u : SizeUnit) : u.product.val = u.size := by
  have hkb : (1024 : F64).val = (1024 : ℕ) := F64.val_ofNat (by norm_num)
  have hmb := F64.val_mul_natCast hkb hkb (by norm_num)
  have hgb := F64.val_mul_natCast hmb hkb (by norm_num)
  have htb := F64.val_mul_natCast hgb hkb (by norm_num)
  cases u with
  | kb => exact hkb
  | mb => exact hmb
  | gb => exact hgb
  | tb => exact htb

variable {len : ℕ} (u : SizeUnit)

/-- **Quotients** are exact. -/
theorem val_quotient (hlen : len ≤ 2 ^ 53) : (F64.ofRat len / u.product).val = len / u.size := by
  have hexact : F64.IsExact ((len : ℚ) / u.size) := by
    refine ⟨len, -(10 * u.power : ℕ), ?_, ?_⟩
    · rw [abs_of_nonneg (Int.natCast_nonneg len)]
      exact_mod_cast hlen
    · rw [zpow_neg, zpow_natCast, u.size_eq]
      push_cast
      rw [div_eq_mul_inv]
  show (F64.ofRat ((F64.ofRat len).val / u.product.val)).val = _
  rw [F64.val_ofRat_natCast hlen, u.val_product, F64.val_ofRat hexact]

theorem size_pos : (0 : ℚ) < u.size := by
  unfold size
  positivity

theorem one_le_quotient_iff (hlen : len ≤ 2 ^ 53) : (1 : F64) ≤ F64.ofRat len / u.product ↔ u.size ≤ len := by
  have hone : (1 : F64).val = (1 : ℕ) := F64.val_ofNat (by norm_num)
  show (1 : F64).val ≤ (F64.ofRat len / u.product).val ↔ _
  rw [hone, u.val_quotient hlen, Nat.cast_one, one_le_div u.size_pos, Nat.cast_le]

/-- The hundredths of the unit that are printed. -/
def shown (len : ℕ) : ℕ := (Rounding.nearestEven (100 * (len / u.size : ℚ))).toNat

theorem fixed2_quotient (hlen : len ≤ 2 ^ 53) :
    (F64.ofRat len / u.product).fixed2 = hundredths (u.shown len) := by
  have hvalue := u.val_quotient hlen
  rw [F64.fixed2_of_nonneg (by rw [hvalue]; positivity), hvalue]
  rfl

theorem cast_shown (len : ℕ) :
    (u.shown len : ℤ) = Rounding.nearestEven (100 * (len / u.size : ℚ)) := by
  have hnonneg : ((0 : ℤ) : ℚ) ≤ 100 * (len / u.size : ℚ) := by
    rw [Int.cast_zero]
    positivity
  exact Int.toNat_of_nonneg (Rounding.le_nearestEven hnonneg)

theorem hundred_le_shown (h : u.size ≤ len) : 100 ≤ u.shown len := by
  have hone : (1 : ℚ) ≤ len / u.size := by
    rw [one_le_div u.size_pos]
    exact_mod_cast h
  have hround : (100 : ℤ) ≤ Rounding.nearestEven (100 * (len / u.size : ℚ)) :=
    Rounding.le_nearestEven (by push_cast; linarith)
  rw [← cast_shown] at hround
  exact_mod_cast hround

/-- **The band.** Less than 1024 is shown of a size that is less than 1023.995 of the unit. -/
theorem shown_lt_iff (len : ℕ) : u.shown len < 102400 ↔ 200 * len < 204799 * u.size := by
  have hround : (u.shown len : ℤ) < 102400 ↔ 100 * (len / u.size : ℚ) < (102400 : ℤ) - 1 / 2 := by
    rw [cast_shown]
    exact Rounding.nearestEven_lt_iff (by decide)
  have hsize := u.size_pos
  have hscale : 100 * (len / u.size : ℚ) < (102400 : ℤ) - 1 / 2 ↔ (200 * len : ℚ) < 204799 * u.size := by
    rw [← mul_div_assoc, div_lt_iff₀ hsize]
    push_cast
    constructor <;> intro h <;> linarith
  rw [hscale] at hround
  exact_mod_cast hround

/-- **Error.** Half of the last decimal. -/
theorem abs_shown_sub_le (len : ℕ) : |(u.shown len / 100 * u.size - len : ℚ)| ≤ u.size / 200 := by
  have hsize := u.size_pos
  have hround := Rounding.abs_nearestEven_sub_le (100 * (len / u.size : ℚ))
  rw [← cast_shown, Int.cast_natCast] at hround
  have hscale : (u.shown len / 100 * u.size - len : ℚ) =
      (u.shown len - 100 * (len / u.size)) * (u.size / 100) := by
    field_simp
  rw [hscale, abs_mul, abs_of_pos (div_pos hsize (by norm_num))]
  calc |(u.shown len - 100 * (len / u.size) : ℚ)| * (u.size / 100)
      ≤ 1 / 2 * (u.size / 100) := mul_le_mul_of_nonneg_right hround (by positivity)
    _ = u.size / 200 := by ring

end SizeUnit

/-! ## Texts -/

variable {len : ℕ} {u : SizeUnit}

/-- **Between two units.** -/
theorem fileSizeFormat_eq (hlow : u.size ≤ len) (hhigh : len < 1024 * u.size) (hlen : len ≤ 2 ^ 53) :
    fileSizeFormat len = hundredths (u.shown len) ++ u.name := by
  have htb : (1 : F64) ≤ F64.ofRat len / (1024 * 1024 * 1024 * 1024) ↔ 1024 ^ 4 ≤ len :=
    SizeUnit.tb.one_le_quotient_iff hlen
  have hgb : (1 : F64) ≤ F64.ofRat len / (1024 * 1024 * 1024) ↔ 1024 ^ 3 ≤ len :=
    SizeUnit.gb.one_le_quotient_iff hlen
  have hmb : (1 : F64) ≤ F64.ofRat len / (1024 * 1024) ↔ 1024 ^ 2 ≤ len :=
    SizeUnit.mb.one_le_quotient_iff hlen
  have hkb : (1 : F64) ≤ F64.ofRat len / 1024 ↔ 1024 ^ 1 ≤ len :=
    SizeUnit.kb.one_le_quotient_iff hlen
  rw [← u.fixed2_quotient hlen]
  unfold SizeUnit.size at hlow hhigh
  unfold fileSizeFormat
  cases u with
  | kb =>
    rw [SizeUnit.power] at hlow hhigh
    rw [if_neg (htb.not.mpr (by omega)), if_neg (hgb.not.mpr (by omega)),
      if_neg (hmb.not.mpr (by omega)), if_pos (hkb.mpr hlow)]
    rfl
  | mb =>
    rw [SizeUnit.power] at hlow hhigh
    rw [if_neg (htb.not.mpr (by omega)), if_neg (hgb.not.mpr (by omega)), if_pos (hmb.mpr hlow)]
    rfl
  | gb =>
    rw [SizeUnit.power] at hlow hhigh
    rw [if_neg (htb.not.mpr (by omega)), if_pos (hgb.mpr hlow)]
    rfl
  | tb =>
    rw [if_pos (htb.mpr hlow)]
    rfl

theorem exists_unit (hlow : 1024 ≤ len) (hhigh : len < 2 ^ 49) :
    ∃ u : SizeUnit, u.size ≤ len ∧ len < 1024 * u.size := by
  by_cases htb : 1024 ^ 4 ≤ len
  · exact ⟨.tb, htb, by show len < 1024 * 1024 ^ 4; omega⟩
  · by_cases hgb : 1024 ^ 3 ≤ len
    · exact ⟨.gb, hgb, by show len < 1024 * 1024 ^ 3; omega⟩
    · by_cases hmb : 1024 ^ 2 ≤ len
      · exact ⟨.mb, hmb, by show len < 1024 * 1024 ^ 2; omega⟩
      · exact ⟨.kb, hlow, by show len < 1024 * 1024 ^ 1; omega⟩

theorem printed_injective {n m : ℕ} {v : SizeUnit} (h : hundredths n ++ u.name = hundredths m ++ v.name) :
    n = m := by
  have hlength : u.name.length = v.name.length := by
    cases u <;> cases v <;> rfl
  exact hundredths_injective (List.append_inj_left' h hlength)

theorem roundsUp_iff (hlow : u.size ≤ len) (hhigh : len < 1024 * u.size) (hlen : len < 2 ^ 49) :
    RoundsUp len ↔ 204799 * u.size ≤ 200 * len := by
  unfold SizeUnit.size at hlow hhigh ⊢
  constructor
  · rintro ⟨k, hk, hround, hnext⟩
    simp only [List.mem_cons, List.not_mem_nil, or_false] at hk
    cases u <;> rw [SizeUnit.power] at hlow hhigh ⊢ <;> rcases hk with rfl | rfl | rfl <;> omega
  · intro hround
    cases u with
    | kb => exact ⟨1, by decide, hround, hhigh⟩
    | mb => exact ⟨2, by decide, hround, by rw [SizeUnit.power] at hhigh; omega⟩
    | gb => exact ⟨3, by decide, hround, by rw [SizeUnit.power] at hhigh; omega⟩
    | tb =>
      rw [SizeUnit.power] at hround
      omega

theorem isShown_iff_shown_lt (hlow : u.size ≤ len) (hhigh : len < 1024 * u.size) (hlen : len ≤ 2 ^ 53) :
    IsShown len (fileSizeFormat len) ↔ u.shown len < 102400 := by
  rw [fileSizeFormat_eq hlow hhigh hlen]
  constructor
  · rintro ⟨n, v, hsame, -, hlt, -⟩
    rw [printed_injective hsame]
    exact hlt
  · intro hlt
    exact ⟨u.shown len, u, rfl, u.hundred_le_shown hlow, hlt, u.abs_shown_sub_le len⟩

/-- **Sizes.** The text shows the size just when the size does not round up to 1024 of its unit. -/
theorem isShown_fileSizeFormat_iff (hlow : 1024 ≤ len) (hhigh : len < 2 ^ 49) :
    IsShown len (fileSizeFormat len) ↔ ¬ RoundsUp len := by
  obtain ⟨u, hunit, hnext⟩ := exists_unit hlow hhigh
  rw [isShown_iff_shown_lt hunit hnext (by omega), roundsUp_iff hunit hnext hhigh, not_le,
    u.shown_lt_iff]

theorem isShown_fileSizeFormat_iff_mega :
    IsShown 1048576 (fileSizeFormat 1048576) ↔ ¬ RoundsUp 1048576 :=
  isShown_fileSizeFormat_iff (by norm_num) (by norm_num)

/-- One byte less than a megabyte is shown as `1024.00KB`. -/
theorem fileSizeFormat_kilo :
    fileSizeFormat 1048575 = "1024.00KB".toList ∧ ¬ IsShown 1048575 (fileSizeFormat 1048575) := by
  have hlow : SizeUnit.kb.size ≤ 1048575 := by decide
  have hhigh : 1048575 < 1024 * SizeUnit.kb.size := by decide
  have hband : ¬ SizeUnit.kb.shown 1048575 < 102400 := by
    rw [SizeUnit.shown_lt_iff]
    decide
  have hshown : SizeUnit.kb.shown 1048575 = 102400 := by
    have hround : Rounding.nearestEven (100 * (((1048575 : ℕ) : ℚ) / SizeUnit.kb.size)) ≤ 102400 := by
      refine Rounding.nearestEven_le ?_
      unfold SizeUnit.size SizeUnit.power
      norm_num
    rw [← SizeUnit.cast_shown] at hround
    omega
  constructor
  · rw [fileSizeFormat_eq hlow hhigh (by norm_num), hshown]
    decide
  · rw [isShown_iff_shown_lt hlow hhigh (by norm_num)]
    exact hband

end ChimesUtils
