import ChimesUtils.Lib.Positional
import ChimesUtils.Numerals

/-!
# Numbers as codes

`num_to_string`, `number_to_string` and `num_to_string_v2` write a number in the base of an alphabet
without look-alike symbols. They are one loop over three alphabets.

* `codeLoop_eq`: the loop writes the numeral of what is left in front of what it has;
* `codes_numToString` and its companions, `codes`: every code is read back.
-/

namespace ChimesUtils

open Lib

/-- The loop of the three functions, over the alphabet `base_codec`. The remainders of a positive `t`
are places of the alphabet. -/
def codeLoop {b : ℕ} (baseCodec : Vector Char (b + 2)) (t : ℤ) (result : Text) : Text :=
  if 0 < t then
    codeLoop baseCodec (t / (b + 2 : ℕ))
      (Positional.letter baseCodec (t % (b + 2 : ℕ)).toNat :: result)
  else result
termination_by t.toNat
decreasing_by
  have hlt : t / ((b + 2 : ℕ) : ℤ) < t := Int.ediv_lt_self_of_pos_of_ne_one ‹0 < t› (by omega)
  omega

/-- The alphabet of `num_to_string`. -/
def baseCodec : Vector Char 32 :=
  #v['A', 'B', 'C', 'D', 'E', 'F', 'G', 'H', 'J', 'K', 'L', 'M', 'N', 'O', 'P', 'Q', 'R', 'S',
    'T', 'U', 'V', 'W', 'X', 'Y', 'Z', '2', '3', '4', '5', '7', '8', '9']

/-- The alphabet of `number_to_string`. -/
def baseCodecNumber : Vector Char 10 := #v['1', '2', '3', '4', '5', '6', '7', '8', '9', '0']

/-- The alphabet of `num_to_string_v2`. -/
def baseCodecV2 : Vector Char 56 :=
  #v['a', 'b', 'c', 'd', 'e', 'f', 'g', 'h', 'j', 'k', 'l', 'm', 'n', 'p', 'q', 'r', 's', 't',
    'u', 'v', 'w', 'x', 'y', 'z', 'A', 'B', 'C', 'D', 'E', 'F', 'G', 'H', 'J', 'K', 'L', 'M',
    'N', 'P', 'Q', 'R', 'S', 'T', 'U', 'V', 'W', 'X', 'Y', 'Z', '2', '3', '4', '5', '6', '7',
    '8', '9']

/-- `num_to_string`. -/
def numToString (n : ℤ) : Text := codeLoop (b := 30) baseCodec n []

/-- `number_to_string`. -/
def numberToString (n : ℤ) : Text := codeLoop (b := 8) baseCodecNumber n []

/-- `num_to_string_v2`. -/
def numToStringV2 (n : ℤ) : Text := codeLoop (b := 54) baseCodecV2 n []

/-! ## The loop -/

section Loop

variable {b : ℕ} (codec : Vector Char (b + 2))

theorem codeLoop_of_nonpos {t : ℤ} (ht : t ≤ 0) (result : Text) :
    codeLoop codec t result = result := by
  unfold codeLoop
  rw [if_neg (not_lt.mpr ht)]

/-- **The loop** writes the numeral of a number in front of what it has. -/
theorem codeLoop_eq (n : ℕ) (result : Text) :
    codeLoop codec n result = Positional.numeral codec n ++ result := by
  induction n using Nat.strong_induction_on generalizing result with
  | _ n ih =>
    rcases Nat.eq_zero_or_pos n with rfl | hn
    · have hzero : ((0 : ℕ) : ℤ) ≤ 0 := le_rfl
      rw [codeLoop_of_nonpos _ hzero, Positional.numeral_zero, List.nil_append]
    · have hdiv : n / (b + 2) < n := Nat.div_lt_self hn (by omega)
      have hmod : ((n : ℤ) % (b + 2 : ℕ)).toNat = n % (b + 2) := by
        rw [← Int.natCast_emod, Int.toNat_natCast]
      unfold codeLoop
      rw [if_pos (Int.natCast_pos.mpr hn), hmod, ← Int.natCast_ediv, ih _ hdiv,
        Positional.numeral_of_pos _ hn, List.append_assoc, List.singleton_append]

end Loop

/-! ## Codes -/

/-- The function writes the non-negative numbers as numerals over the alphabet: the value of a numeral
is the number, different numbers have different numerals, and a positive number has as many letters as
digits in the base. -/
structure Codes {b : ℕ} (encode : ℤ → Text) (codec : Vector Char (b + 2)) : Prop where
  decode : ∀ n : I64, 0 ≤ n.1 → (Positional.value codec (encode n.1) : ℤ) = n.1
  injective : ∀ m n : I64, 0 ≤ m.1 → 0 ≤ n.1 → encode m.1 = encode n.1 → m = n
  length : ∀ n : I64, 1 ≤ n.1 → (encode n.1).length = (Nat.digits (b + 2) n.1.toNat).length

theorem codes_of_nodup {b : ℕ} {codec : Vector Char (b + 2)} (h : codec.toList.Nodup) :
    Codes (fun n => codeLoop codec n []) codec := by
  have hloop : ∀ n : ℕ, codeLoop codec n [] = Positional.numeral codec n := fun n => by
    rw [codeLoop_eq, List.append_nil]
  have hdecode : ∀ n : I64, 0 ≤ n.1 →
      (Positional.value codec (codeLoop codec n.1 []) : ℤ) = n.1 := by
    rintro ⟨n, hi64⟩ hn
    obtain ⟨n, rfl⟩ := Int.eq_ofNat_of_zero_le hn
    exact congrArg Nat.cast ((congrArg _ (hloop n)).trans (Positional.value_numeral codec h n))
  refine ⟨hdecode, fun m n hm hn heq => ?_, ?_⟩
  · have hvalue : m.1 = n.1 := by
      rw [← hdecode m hm, ← hdecode n hn, heq]
    exact Subtype.ext hvalue
  · rintro ⟨n, hi64⟩ hn
    obtain ⟨n, rfl⟩ := Int.eq_ofNat_of_zero_le (zero_le_one.trans hn)
    exact (congrArg List.length (hloop n)).trans (Positional.length_numeral codec n)

/-- **Codes.** Each of the three functions writes the non-negative numbers as numerals over its
alphabet. -/
theorem codes : Codes (b := 30) numToString baseCodec ∧ Codes (b := 8) numberToString baseCodecNumber ∧
    Codes (b := 54) numToStringV2 baseCodecV2 :=
  ⟨codes_of_nodup (b := 30) (by decide), codes_of_nodup (b := 8) (by decide),
    codes_of_nodup (b := 54) (by decide)⟩

end ChimesUtils
