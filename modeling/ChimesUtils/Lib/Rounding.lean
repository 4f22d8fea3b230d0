import Mathlib

/-!
# Rounding

Rounding a rational number to the nearest integer, and to a number of binary digits; the even neighbour
wins a tie.

* `abs_nearestEven_sub_le`, `nearestEven_lt_iff`: the nearest integer;
* `roundTo_eq_self`: numbers that have few enough digits stay as they are;
* `roundTo_roundTo`, `abs_roundTo_sub_le`: rounding once is enough, and its relative error;
* `roundTo_mono`, `roundTo_neg`: rounding keeps the order, and goes with the sign.
-/

namespace ChimesUtils.Lib.Rounding

/-! ## The nearest integer -/

/-- The nearest integer, or the even one of two. -/
def nearestEven (x : ℚ) : ℤ :=
  if 2 * Int.fract x < 1 then ⌊x⌋
  else if 1 < 2 * Int.fract x then ⌊x⌋ + 1
  else if Even ⌊x⌋ then ⌊x⌋ else ⌊x⌋ + 1

variable {x : ℚ} {n : ℤ}

theorem nearestEven_intCast (n : ℤ) : nearestEven n = n := by
  have hfract : 2 * Int.fract (n : ℚ) < 1 := by
    rw [Int.fract_intCast]
    norm_num
  rw [nearestEven, if_pos hfract, Int.floor_intCast]

theorem nearestEven_eq_or (x : ℚ) : nearestEven x = ⌊x⌋ ∨ nearestEven x = ⌊x⌋ + 1 := by
  unfold nearestEven
  split_ifs
  · exact .inl rfl
  · exact .inr rfl
  · exact .inl rfl
  · exact .inr rfl

theorem abs_nearestEven_sub_le (x : ℚ) : |nearestEven x - x| ≤ 1 / 2 := by
  have hfract := Int.fract_add_floor x
  have hnonneg := Int.fract_nonneg x
  have hlt := Int.fract_lt_one x
  rw [abs_le]
  unfold nearestEven
  split_ifs with hless hmore
  · constructor <;> linarith
  · push_cast
    constructor <;> linarith
  · constructor <;> linarith
  · push_cast
    constructor <;> linarith

theorem le_nearestEven (h : (n : ℚ) ≤ x) : n ≤ nearestEven x := by
  have hfloor : n ≤ ⌊x⌋ := Int.le_floor.mpr h
  rcases nearestEven_eq_or x with heq | heq <;> omega

theorem nearestEven_le (h : x ≤ n) : nearestEven x ≤ n := by
  rcases h.lt_or_eq with hlt | rfl
  · have hfloor : ⌊x⌋ < n := Int.floor_lt.mpr hlt
    rcases nearestEven_eq_or x with heq | heq <;> omega
  · exact (nearestEven_intCast n).le

/-- **Below an even integer.** The tie in front of it goes to it. -/
theorem nearestEven_lt_iff (hn : Even n) : nearestEven x < n ↔ x < n - 1 / 2 := by
  have hfract := Int.fract_add_floor x
  have hnonneg := Int.fract_nonneg x
  have hlt := Int.fract_lt_one x
  constructor
  · intro h
    by_contra hge
    have hle := (abs_le.mp (abs_nearestEven_sub_le x)).1
    have hcast : (nearestEven x : ℚ) + 1 ≤ n := by exact_mod_cast h
    have htie : x = n - 1 / 2 := by linarith
    have hfloor : ⌊x⌋ = n - 1 := by
      rw [Int.floor_eq_iff, htie]
      push_cast
      constructor <;> linarith
    have hodd : ¬ Even ⌊x⌋ := by
      rw [hfloor, Int.even_sub_one]
      exact not_not.mpr hn
    have hhalf : 2 * Int.fract x = 1 := by
      rw [hfloor] at hfract
      push_cast at hfract
      linarith
    rw [nearestEven, if_neg (by rw [hhalf]; exact lt_irrefl _), if_neg (by rw [hhalf]; exact lt_irrefl _),
      if_neg hodd, hfloor] at h
    omega
  · intro h
    have hle := (abs_le.mp (abs_nearestEven_sub_le x)).2
    have hcast : (nearestEven x : ℚ) < n := by linarith
    exact_mod_cast hcast

/-! ## Binary digits -/

/-- The exponent of the last of `p` binary digits. -/
def lastExponent (p : ℕ) (x : ℚ) : ℤ := Int.log 2 |x| + 1 - p

/-- The nearest number with `p` binary digits. -/
def roundTo (p : ℕ) (x : ℚ) : ℚ := nearestEven (x / 2 ^ lastExponent p x) * 2 ^ lastExponent p x

variable {p : ℕ}

theorem two_zpow_pos (k : ℤ) : (0 : ℚ) < 2 ^ k := zpow_pos two_pos k

theorem roundTo_zero (p : ℕ) : roundTo p 0 = 0 := by
  unfold roundTo
  rw [zero_div, ← Int.cast_zero, nearestEven_intCast, Int.cast_zero, zero_mul]

theorem roundTo_of_le {m k : ℤ} (h : lastExponent p (m * 2 ^ k) ≤ k) :
    roundTo p (m * 2 ^ k) = m * 2 ^ k := by
  unfold roundTo
  generalize lastExponent p (m * 2 ^ k) = e at h
  have hint : (m : ℚ) * 2 ^ k / 2 ^ e = ((m * 2 ^ (k - e).toNat : ℤ) : ℚ) := by
    have hpow : (2 : ℚ) ^ (k - e).toNat = 2 ^ (k - e) := by
      rw [← zpow_natCast, Int.toNat_of_nonneg (by omega)]
    push_cast
    rw [hpow, zpow_sub₀ two_ne_zero, mul_div_assoc]
  rw [hint, nearestEven_intCast, ← hint, div_mul_cancel₀ _ (two_zpow_pos e).ne']

theorem roundTo_of_lt {m : ℤ} (hm : |m| < 2 ^ p) (k : ℤ) : roundTo p (m * 2 ^ k) = m * 2 ^ k := by
  rcases eq_or_ne m 0 with rfl | hne
  · rw [Int.cast_zero, zero_mul, roundTo_zero]
  · have hpos : 0 < |(m : ℚ) * 2 ^ k| :=
      abs_pos.mpr (mul_ne_zero (Int.cast_ne_zero.mpr hne) (two_zpow_pos k).ne')
    have hlt : |(m : ℚ) * 2 ^ k| < (2 : ℕ) ^ (p + k : ℤ) := by
      have hcast : |(m : ℚ)| < 2 ^ p := by exact_mod_cast hm
      rw [abs_mul, abs_of_pos (two_zpow_pos k), Nat.cast_ofNat, zpow_add₀ two_ne_zero, zpow_natCast]
      exact mul_lt_mul_of_pos_right hcast (two_zpow_pos k)
    have hlog := (Int.lt_zpow_iff_log_lt one_lt_two hpos).mp hlt
    refine roundTo_of_le ?_
    unfold lastExponent
    omega

/-- **Exact numbers.** At most `2 ^ p` units of any place. -/
theorem roundTo_eq_self (hp : 0 < p) {m : ℤ} (hm : |m| ≤ 2 ^ p) (k : ℤ) :
    roundTo p (m * 2 ^ k) = m * 2 ^ k := by
  rcases hm.lt_or_eq with hlt | heq
  · exact roundTo_of_lt hlt k
  · obtain ⟨s, hs, rfl⟩ : ∃ s : ℤ, |s| = 1 ∧ m = s * 2 ^ p := by
      rcases (abs_eq (by positivity)).mp heq with rfl | rfl
      · exact ⟨1, rfl, (one_mul _).symm⟩
      · exact ⟨-1, rfl, (neg_one_mul _).symm⟩
    have hshift : ((s * 2 ^ p : ℤ) : ℚ) * 2 ^ k = s * 2 ^ (p + k : ℤ) := by
      rw [zpow_add₀ two_ne_zero, zpow_natCast]
      push_cast
      ring
    have hone : (1 : ℤ) < 2 ^ p := one_lt_pow₀ one_lt_two hp.ne'
    rw [hshift]
    exact roundTo_of_lt (hs ▸ hone) _

theorem abs_nearestEven_le (p : ℕ) (x : ℚ) : |nearestEven (x / 2 ^ lastExponent p x)| ≤ 2 ^ p := by
  have hunits : |x / 2 ^ lastExponent p x| ≤ 2 ^ p := by
    have hlog := Int.lt_zpow_succ_log_self (R := ℚ) one_lt_two |x|
    have hexp : Int.log 2 |x| + 1 = p + lastExponent p x := by
      unfold lastExponent
      omega
    rw [abs_div, abs_of_pos (two_zpow_pos _), div_le_iff₀ (two_zpow_pos _), ← zpow_natCast,
      ← zpow_add₀ two_ne_zero, ← hexp]
    exact hlog.le
  obtain ⟨hlow, hhigh⟩ := abs_le.mp hunits
  rw [abs_le]
  refine ⟨le_nearestEven ?_, nearestEven_le ?_⟩
  · push_cast
    exact hlow
  · push_cast
    exact hhigh

/-- **Once is enough.** -/
theorem roundTo_roundTo (hp : 0 < p) (x : ℚ) : roundTo p (roundTo p x) = roundTo p x :=
  roundTo_eq_self hp (abs_nearestEven_le p x) (lastExponent p x)

/-- **Error.** -/
theorem abs_roundTo_sub_le (p : ℕ) (x : ℚ) : |roundTo p x - x| ≤ |x| / 2 ^ p := by
  rcases eq_or_ne x 0 with rfl | hne
  · rw [roundTo_zero, sub_zero, abs_zero, zero_div]
  · have hplace : (2 : ℚ) ^ lastExponent p x / 2 ≤ |x| / 2 ^ p := by
      have hlog := Int.zpow_log_le_self (R := ℚ) one_lt_two (abs_pos.mpr hne)
      have hexp : lastExponent p x = Int.log 2 |x| + 1 - p := rfl
      rw [hexp, zpow_sub₀ two_ne_zero, zpow_add₀ two_ne_zero, zpow_one, zpow_natCast, div_right_comm,
        mul_div_cancel_right₀ _ two_ne_zero]
      exact div_le_div_of_nonneg_right hlog (by positivity)
    have hscale : roundTo p x - x = (nearestEven (x / 2 ^ lastExponent p x) - x / 2 ^ lastExponent p x) *
        2 ^ lastExponent p x := by
      rw [sub_mul, div_mul_cancel₀ _ (two_zpow_pos _).ne']
      rfl
    rw [hscale, abs_mul, abs_of_pos (two_zpow_pos _)]
    refine le_trans ?_ hplace
    have hhalf := mul_le_mul_of_nonneg_right
      (abs_nearestEven_sub_le (x / 2 ^ lastExponent p x)) (two_zpow_pos (lastExponent p x)).le
    linarith

/-! ## Order and sign -/

theorem nearestEven_eq (h : |x - n| < 1 / 2) : nearestEven x = n := by
  have hround := abs_nearestEven_sub_le x
  have hdist : |(nearestEven x : ℚ) - n| < 1 := by
    calc |(nearestEven x : ℚ) - n| ≤ |nearestEven x - x| + |x - n| := abs_sub_le _ _ _
      _ < 1 / 2 + 1 / 2 := add_lt_add_of_le_of_lt hround h
      _ = 1 := by norm_num
  have hint : |nearestEven x - n| < 1 := by exact_mod_cast hdist
  rw [Int.abs_lt_one_iff] at hint
  omega

theorem nearestEven_mono {y : ℚ} (h : x ≤ y) : nearestEven x ≤ nearestEven y := by
  rcases (Int.floor_mono h).lt_or_eq with hlt | heq
  · have hx := nearestEven_eq_or x
    have hy := nearestEven_eq_or y
    omega
  · have hfract : Int.fract x ≤ Int.fract y := by
      rw [Int.fract, Int.fract, heq]
      exact sub_le_sub_right h _
    unfold nearestEven
    rw [heq]
    -- between equal integers, the place decides
    split_ifs <;> first | omega | linarith

theorem nearestEven_neg (x : ℚ) : nearestEven (-x) = -nearestEven x := by
  by_cases hint : Int.fract x = 0
  · obtain ⟨z, rfl⟩ := Int.fract_eq_zero_iff.mp hint
    rw [← Int.cast_neg, nearestEven_intCast, nearestEven_intCast]
  · have hfract : Int.fract (-x) = 1 - Int.fract x := Int.fract_neg hint
    have hfloor : ⌊-x⌋ = -⌊x⌋ - 1 := by
      have hx := Int.fract_add_floor x
      have hneg := Int.fract_add_floor (-x)
      rw [hfract] at hneg
      have hcast : ((⌊-x⌋ : ℤ) : ℚ) = ((-⌊x⌋ - 1 : ℤ) : ℚ) := by
        push_cast
        linarith
      exact_mod_cast hcast
    have hparity : Even (-⌊x⌋ - 1) ↔ ¬ Even ⌊x⌋ := by
      rw [Int.even_sub_one, even_neg]
    unfold nearestEven
    rw [hfract, hfloor]
    simp only [hparity]
    split_ifs <;> first | omega | linarith

theorem roundTo_neg (p : ℕ) (x : ℚ) : roundTo p (-x) = -roundTo p x := by
  have hexp : lastExponent p (-x) = lastExponent p x := by
    unfold lastExponent
    rw [abs_neg]
  unfold roundTo
  rw [hexp, neg_div, nearestEven_neg, Int.cast_neg, neg_mul]

theorem exists_units {m k : ℤ} (h : lastExponent p x ≤ k) :
    ∃ n : ℤ, (m : ℚ) * 2 ^ k = n * 2 ^ lastExponent p x := by
  refine ⟨m * 2 ^ (k - lastExponent p x).toNat, ?_⟩
  have hpow : (2 : ℚ) ^ (k - lastExponent p x).toNat = 2 ^ (k - lastExponent p x) := by
    rw [← zpow_natCast, Int.toNat_of_nonneg (by omega)]
  push_cast
  rw [hpow, mul_assoc, ← zpow_add₀ two_ne_zero, sub_add_cancel]

theorem le_roundTo {m k : ℤ} (hk : lastExponent p x ≤ k) (h : m * 2 ^ k ≤ x) :
    m * 2 ^ k ≤ roundTo p x := by
  obtain ⟨n, hn⟩ := exists_units (m := m) hk
  rw [hn] at h ⊢
  have hle := le_nearestEven ((le_div_iff₀ (two_zpow_pos (lastExponent p x))).mpr h)
  exact mul_le_mul_of_nonneg_right (Int.cast_le.mpr hle) (two_zpow_pos _).le

theorem roundTo_le {m k : ℤ} (hk : lastExponent p x ≤ k) (h : x ≤ m * 2 ^ k) :
    roundTo p x ≤ m * 2 ^ k := by
  obtain ⟨n, hn⟩ := exists_units (m := m) hk
  rw [hn] at h ⊢
  have hle := nearestEven_le ((div_le_iff₀ (two_zpow_pos (lastExponent p x))).mpr h)
  exact mul_le_mul_of_nonneg_right (Int.cast_le.mpr hle) (two_zpow_pos _).le

theorem roundTo_nonneg (h : 0 ≤ x) : 0 ≤ roundTo p x := by
  have hle := le_roundTo (p := p) (x := x) (m := 0) le_rfl (by rwa [Int.cast_zero, zero_mul])
  rwa [Int.cast_zero, zero_mul] at hle

/-- Two positive numbers; if they have different exponents, a power of two lies between them. -/
theorem roundTo_mono_of_pos (hp : 0 < p) {y : ℚ} (hx : 0 < x) (h : x ≤ y) :
    roundTo p x ≤ roundTo p y := by
  have hy := hx.trans_le h
  have hlogs := Int.log_mono_right (b := 2) hx h
  have hexp : ∀ z : ℚ, 0 < z → lastExponent p z = Int.log 2 z + 1 - p := by
    intro z hz
    rw [lastExponent, abs_of_pos hz]
  rcases hlogs.lt_or_eq with hlt | heq
  · have hupper : x ≤ (1 : ℤ) * 2 ^ Int.log 2 y := by
      have hlog := Int.lt_zpow_succ_log_self (R := ℚ) one_lt_two x
      rw [Int.cast_one, one_mul]
      exact hlog.le.trans (zpow_le_zpow_right₀ one_le_two (by omega))
    have hlower : ((2 ^ (p - 1) : ℤ) : ℚ) * 2 ^ lastExponent p y = 2 ^ Int.log 2 y := by
      rw [Int.cast_pow, Int.cast_ofNat, ← zpow_natCast, ← zpow_add₀ two_ne_zero, hexp y hy]
      congr 1
      omega
    have hle := Int.zpow_log_le_self (R := ℚ) one_lt_two hy
    rw [Nat.cast_ofNat, ← hlower] at hle
    calc roundTo p x ≤ (1 : ℤ) * 2 ^ Int.log 2 y := roundTo_le (by rw [hexp x hx]; omega) hupper
      _ = ((2 ^ (p - 1) : ℤ) : ℚ) * 2 ^ lastExponent p y := by rw [hlower, Int.cast_one, one_mul]
      _ ≤ roundTo p y := le_roundTo le_rfl hle
  · have hsame : lastExponent p x = lastExponent p y := by rw [hexp x hx, hexp y hy, heq]
    unfold roundTo
    rw [hsame]
    refine mul_le_mul_of_nonneg_right (Int.cast_le.mpr (nearestEven_mono ?_)) (two_zpow_pos _).le
    exact div_le_div_of_nonneg_right h (two_zpow_pos _).le

/-- **Order.** -/
theorem roundTo_mono (hp : 0 < p) {y : ℚ} (h : x ≤ y) : roundTo p x ≤ roundTo p y := by
  rcases lt_or_ge 0 x with hx | hx
  · exact roundTo_mono_of_pos hp hx h
  · rcases lt_or_ge y 0 with hy | hy
    · have hneg := roundTo_mono_of_pos hp (neg_pos.mpr hy) (neg_le_neg h)
      rw [roundTo_neg, roundTo_neg] at hneg
      exact neg_le_neg_iff.mp hneg
    · have hlow := roundTo_nonneg (p := p) (neg_nonneg.mpr hx)
      rw [roundTo_neg] at hlow
      exact (neg_nonneg.mp hlow).trans (roundTo_nonneg hy)

end ChimesUtils.Lib.Rounding
