import ChimesUtils.Lib.Token

/-!
# Renumbering tokens by successive replacement

To move the numbers of the tokens `1, …, n` up by `k`, a program may replace the text of token `1`
by that of `1 + k`, then the text of `2` in the result, and so on. A pass can hit a token written by
an earlier one, or the first digits of a longer token. `passes k n` is what the `n` passes do to one
numeral (`foldl_replace_render`), and `passes_eq_iff` says when they renumber all tokens.
-/

namespace ChimesUtils.Lib

namespace Numeral

/-- The number a numeral reads. -/
def value (d : Numeral) : ℕ := Nat.ofDigitChars 10 d.1 0

@[simp] theorem value_ofNat (n : ℕ) : (ofNat n).value = n := Nat.ofDigitChars_ten_toDigits

theorem replaceLead_of_not {x d : Numeral} (h : ¬ x.1 <+: d.1) (y : Numeral) :
    replaceLead x y d = d := if_neg h

theorem replaceLead_self (x d : Numeral) : replaceLead x x d = d := by
  by_cases h : x.1 <+: d.1
  · obtain ⟨r, hr⟩ := h
    rw [replaceLead, if_pos ⟨r, hr⟩]
    refine Subtype.ext ?_
    change x.1 ++ d.1.drop x.1.length = d.1
    rw [← hr, List.drop_left]
  · exact replaceLead_of_not h x

@[simp] theorem replaceLead_lead (x y : Numeral) : replaceLead x y x = y := by
  rw [replaceLead, if_pos List.prefix_rfl]
  refine Subtype.ext ?_
  change y.1 ++ x.1.drop x.1.length = y.1
  rw [List.drop_length, List.append_nil]

theorem value_replaceLead {a k : ℕ} {d : Numeral} (h : decimal a <+: d.1) :
    ∃ r, d.1 = decimal a ++ r ∧
      (replaceLead (ofNat a) (ofNat (a + k)) d).value = d.value + 10 ^ r.length * k := by
  obtain ⟨r, hr⟩ := h
  refine ⟨r, hr.symm, ?_⟩
  have hd : d.1.drop (decimal a).length = r := by rw [← hr, List.drop_left]
  have hval : (replaceLead (ofNat a) (ofNat (a + k)) d).1 = decimal (a + k) ++ r := by
    rw [replaceLead, if_pos ⟨r, hr⟩]
    change decimal (a + k) ++ d.1.drop (decimal a).length = _
    rw [hd]
  rw [value, value, hval, ← hr, Nat.ofDigitChars_append, Nat.ofDigitChars_append,
    Nat.ofDigitChars_ten_toDigits, Nat.ofDigitChars_ten_toDigits,
    Nat.ofDigitChars_eq_ofDigitChars_zero,
    @Nat.ofDigitChars_eq_ofDigitChars_zero r a]
  ring

theorem replaceLead_eq_or_lt {k : ℕ} (hk : 0 < k) (a : ℕ) (d : Numeral) :
    replaceLead (ofNat a) (ofNat (a + k)) d = d ∨
      d.value < (replaceLead (ofNat a) (ofNat (a + k)) d).value := by
  by_cases h : decimal a <+: d.1
  · obtain ⟨r, -, hr⟩ := value_replaceLead (k := k) h
    right
    rw [hr]
    have : 0 < 10 ^ r.length * k := Nat.mul_pos (Nat.pow_pos (by omega)) hk
    omega
  · exact Or.inl (replaceLead_of_not h _)

end Numeral

open Numeral

/-- What the passes `1, …, n` do to a numeral. -/
def passes (k : ℕ) : ℕ → Numeral → Numeral
  | 0, d => d
  | n + 1, d => replaceLead (ofNat (n + 1)) (ofNat (n + 1 + k)) (passes k n d)

/-- The passes on a text act on its tokens. -/
theorem foldl_replace_render (m : Marker) (k n : ℕ) {D : Marked Char Numeral} (h : Scanned m D) :
    (List.range n).foldl (fun s i => replace ((ofNat (i + 1)).token m)
        ((ofNat (i + 1 + k)).token m) s) (render (token m) D) =
      render (token m) (mapMarks (passes k n) D) := by
  induction n with
  | zero =>
    rw [render_mapMarks]
    rfl
  | succ n ih =>
    rw [List.range_succ, List.foldl_append, ih, List.foldl_cons, List.foldl_nil,
      replace_render_token _ _ (h.mapMarks _), render_mapMarks, render_mapMarks, render_mapMarks]
    rfl

section Passes

variable {k : ℕ}

theorem passes_eq_or_lt (hk : 0 < k) {a b : ℕ} (hab : a ≤ b) (d : Numeral) :
    passes k b d = passes k a d ∨ (passes k a d).value < (passes k b d).value := by
  induction b, hab using Nat.le_induction with
  | base => exact Or.inl rfl
  | succ b hab ih =>
    rw [passes]
    rcases replaceLead_eq_or_lt hk (b + 1) (passes k b d) with h | h
    · rwa [h]
    · rcases ih with h' | h'
      · rw [h'] at h ⊢
        exact Or.inr h
      · exact Or.inr (h'.trans h)

theorem length_decimal_of_lt_ten {a : ℕ} (h : a < 10) : (decimal a).length = 1 := by
  rw [decimal, Nat.toDigits_of_lt_base h]
  rfl

theorem eq_of_decimal_prefix {a b : ℕ} (hb : b < 10) (h : decimal a <+: decimal b) : a = b := by
  refine decimal_injective (h.eq_of_length_le ?_)
  rw [length_decimal_of_lt_ten hb]
  exact List.length_pos_iff.mpr (decimal_ne_nil a)

theorem passes_before {a b : ℕ} (hab : a < b) (hb : b < 10) : passes k a (ofNat b) = ofNat b := by
  induction a with
  | zero => rfl
  | succ a ih =>
    rw [passes, ih (by omega)]
    refine replaceLead_of_not (fun h => ?_) _
    have := eq_of_decimal_prefix hb h
    omega

theorem passes_at {b : ℕ} (h0 : 0 < b) (hb : b < 10) : passes k b (ofNat b) = ofNat (b + k) := by
  obtain ⟨a, rfl⟩ := Nat.exists_eq_add_of_lt h0
  rw [Nat.zero_add, passes, passes_before (by omega) (by omega), replaceLead_lead]

/-- No pass hits a token that it should not: at most nine tokens, none of which reads the first
digits of a number written by an earlier pass. -/
def NoClash (k n : ℕ) : Prop :=
  n ≤ 9 ∧ ∀ i j, 0 < i → i < j → j ≤ n → ¬ decimal j <+: decimal (i + k)

theorem NoClash.passes_eq {n i : ℕ} (h : NoClash k n) (hi : 0 < i) (hin : i ≤ n) :
    passes k n (ofNat i) = ofNat (i + k) := by
  suffices h' : ∀ b, i ≤ b → b ≤ n → passes k b (ofNat i) = ofNat (i + k) from h' n hin le_rfl
  intro b hib
  induction b, hib using Nat.le_induction with
  | base => exact fun hbn => passes_at hi (by have := h.1; omega)
  | succ b hib ih =>
    intro hbn
    rw [passes, ih (by omega)]
    exact replaceLead_of_not (h.2 i (b + 1) hi (by omega) hbn) _

theorem noClash_of_passes_eq (hk : 0 < k) {n : ℕ}
    (h : ∀ i, 0 < i → i ≤ n → passes k n (ofNat i) = ofNat (i + k)) : NoClash k n := by
  have hn : n ≤ 9 := by
    by_contra hn
    -- the first pass turns `10` into `(1 + k)` followed by `0`
    have hone : (passes k 1 (ofNat 10)).value = 10 + 10 * k := by
      obtain ⟨r, hr, hv⟩ := value_replaceLead (k := k) (a := 1) (d := ofNat 10) (by decide)
      have hr' : r = ['0'] := List.append_cancel_left (hr.symm : decimal 1 ++ r = ['1'] ++ ['0'])
      rw [passes, passes, hv, hr', value_ofNat]
      rfl
    have hten := congrArg value (h 10 (by omega) (by omega))
    rw [value_ofNat] at hten
    rcases passes_eq_or_lt hk (show 1 ≤ n by omega) (ofNat 10) with h1 | h1
    · rw [h1, hone] at hten
      omega
    · rw [hone, hten] at h1
      omega
  refine ⟨hn, fun i j hi hij hjn hpre => ?_⟩
  have hfinal := h i hi (by omega)
  have hat : passes k i (ofNat i) = ofNat (i + k) := passes_at hi (by omega)
  -- up to pass `j` nothing moved, so pass `j` moves the number up
  have hbefore : passes k (j - 1) (ofNat i) = ofNat (i + k) := by
    rcases passes_eq_or_lt hk (show i ≤ j - 1 by omega) (ofNat i) with h1 | h1
    · rw [h1, hat]
    · rcases passes_eq_or_lt hk (show j - 1 ≤ n by omega) (ofNat i) with h2 | h2
      · rw [← h2, hfinal]
      · rw [hfinal] at h2
        rw [hat] at h1
        omega
  have hmoved : (i + k) < (passes k j (ofNat i)).value := by
    obtain ⟨b, rfl⟩ : ∃ b, j = b + 1 := ⟨j - 1, by omega⟩
    obtain ⟨r, -, hr⟩ := value_replaceLead (k := k) (a := b + 1) (d := ofNat (i + k)) hpre
    rw [Nat.add_sub_cancel] at hbefore
    rw [passes, hbefore, hr, value_ofNat]
    have : 0 < 10 ^ r.length * k := Nat.mul_pos (Nat.pow_pos (by omega)) hk
    omega
  rcases passes_eq_or_lt hk hjn (ofNat i) with h1 | h1
  · rw [hfinal] at h1
    rw [← h1, value_ofNat] at hmoved
    omega
  · rw [hfinal, value_ofNat] at h1
    omega

/-- **When the passes renumber.** -/
theorem passes_eq_iff (k n : ℕ) : (∀ i, 0 < i → i ≤ n → passes k n (ofNat i) = ofNat (i + k)) ↔
    k = 0 ∨ NoClash k n := by
  constructor
  · intro h
    rcases Nat.eq_zero_or_pos k with hk | hk
    · exact Or.inl hk
    · exact Or.inr (noClash_of_passes_eq hk h)
  · rintro (rfl | h) i hi hin
    · have hid : ∀ b, passes 0 b (ofNat i) = ofNat i := by
        intro b
        induction b with
        | zero => rfl
        | succ b ih => rw [passes, Nat.add_zero, replaceLead_self, ih]
      exact hid n
    · exact h.passes_eq hi hin

end Passes

end ChimesUtils.Lib
