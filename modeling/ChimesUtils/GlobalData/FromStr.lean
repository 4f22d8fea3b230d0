import ChimesUtils.Json

/-!
# Lenient deserialisers

`u64_from_str`, `i64_from_str`, `i32_from_str` and `bool_from_str` take a number, a string or null. A
string that does not parse is replaced by a default; a number that does not fit is an error.

* `u64FromStr_number`, `u64FromStr_numeral` and their companions: what becomes of an integer that is
  given as a number and as a string;
* `takesInteger_iff`: which integers each function treats alike in both forms.
-/

namespace ChimesUtils

/-- `StrOrU64`. -/
inductive StrOrU64 where
  | none
  | string (v : Text)
  | u64 (v : ℕ)

/-- `StrOrI64`. -/
inductive StrOrI64 where
  | none
  | string (v : Text)
  | i64 (v : ℤ)

/-- `StrOrBool`. -/
inductive StrOrBool where
  | string (v : Text)
  | i64 (v : ℤ)
  | bool (v : Bool)
  | none

def StrOrU64.deserialize : Json → Option StrOrU64 :=
  untagged [unitVariant .none, stringVariant .string, u64Variant .u64]

def StrOrI64.deserialize : Json → Option StrOrI64 :=
  untagged [unitVariant .none, stringVariant .string, i64Variant .i64]

def StrOrBool.deserialize : Json → Option StrOrBool :=
  untagged [stringVariant .string, i64Variant .i64, boolVariant .bool, unitVariant .none]

/-- The value that `u64_from_str` takes from a variant. -/
def StrOrU64.toU64 : StrOrU64 → ℕ
  | string v => (parseU64 v).getD 0
  | u64 v => v
  | none => 0

/-- The value that `i64_from_str` takes from a variant. -/
def StrOrI64.toI64 : StrOrI64 → Option ℤ
  | string v => parseI64 v
  | i64 v => some v
  | none => Option.none

/-- The value that `i32_from_str` takes from a variant. -/
def StrOrI64.toI32 : StrOrI64 → Option ℤ
  | string v => (parseI64 v).map asI32
  | i64 v => some (asI32 v)
  | none => Option.none

/-- `u64_from_str`; `none` is the error of the deserialiser, here and below. -/
def u64FromStr (v : Json) : Option ℕ := (StrOrU64.deserialize v).map StrOrU64.toU64

/-- `i64_from_str`. -/
def i64FromStr (v : Json) : Option (Option ℤ) := (StrOrI64.deserialize v).map StrOrI64.toI64

/-- `i32_from_str`. -/
def i32FromStr (v : Json) : Option (Option ℤ) := (StrOrI64.deserialize v).map StrOrI64.toI32

/-- `str::parse::<bool>`. -/
def parseBool (s : Text) : Option Bool :=
  if s = "true".toList then some true else if s = "false".toList then some false else none

/-- `bool_from_str`, which has no error. -/
def boolFromStr (v : Json) : Option Bool :=
  match StrOrBool.deserialize v with
  | some (.string v) => parseBool v
  | some (.i64 v) => some (v ≠ 0)
  | some (.bool v) => some v
  | some .none => some false
  | none => none

/-! ## Integers in two forms -/

/-- How the parser reads the digits of an integer that is not in quotes: as an integer where `u64` or
`i64` has it, and otherwise as a float, or not at all. -/
structure ReadsIntegers (read : ℤ → Option Json) : Prop where
  fits : ∀ (n : ℤ) (range : -9223372036854775808 ≤ n ∧ n < 18446744073709551616),
    read n = some (.number (.int n range))
  large : ∀ n : ℤ, ¬(-9223372036854775808 ≤ n ∧ n < 18446744073709551616) →
    read n = none ∨ ∃ x, read n = some (.number (.float x))

section Forms

variable {read : ℤ → Option Json} (hread : ReadsIntegers read) (n : ℤ)

include hread in
theorem ReadsIntegers.bind_eq {β : Type} {f : Json → Option β}
    (hfloat : ∀ x, f (.number (.float x)) = none) :
    (read n).bind f =
      if h : -9223372036854775808 ≤ n ∧ n < 18446744073709551616 then f (.number (.int n h))
      else none := by
  by_cases hrange : -9223372036854775808 ≤ n ∧ n < 18446744073709551616
  · rw [dif_pos hrange, hread.fits n hrange, Option.bind_some]
  · rw [dif_neg hrange]
    rcases hread.large n hrange with hnone | ⟨x, hx⟩
    · rw [hnone, Option.bind_none]
    · rw [hx, Option.bind_some, hfloat]

theorem StrOrU64.deserialize_number (num : JsonNumber) :
    deserialize (.number num) = num.asU64.map .u64 := by
  unfold deserialize
  simp only [untagged_cons, untagged_nil, Option.or_none]
  rfl

theorem StrOrI64.deserialize_number (num : JsonNumber) :
    deserialize (.number num) = num.asI64.map .i64 := by
  unfold deserialize
  simp only [untagged_cons, untagged_nil, Option.or_none]
  rfl

include hread in
theorem bind_strOrI64 : (read n).bind StrOrI64.deserialize =
    if IsI64 n then some (.i64 n) else none := by
  rw [hread.bind_eq n fun _ => rfl]
  by_cases hrange : -9223372036854775808 ≤ n ∧ n < 18446744073709551616
  · rw [dif_pos hrange, StrOrI64.deserialize_number]
    show (if IsI64 n then some n else none).map StrOrI64.i64 = _
    split_ifs <;> rfl
  · have hi64 : ¬ IsI64 n := by
      unfold IsI64
      omega
    rw [dif_neg hrange, if_neg hi64]

include hread in
theorem bind_u64FromStr : (read n).bind u64FromStr =
    if IsU64 n then some n.toNat else none := by
  rw [hread.bind_eq n fun _ => rfl]
  by_cases hrange : -9223372036854775808 ≤ n ∧ n < 18446744073709551616
  · rw [dif_pos hrange, u64FromStr, StrOrU64.deserialize_number]
    show ((if 0 ≤ n then some n.toNat else none).map StrOrU64.u64).map _ = _
    by_cases hn : 0 ≤ n
    · rw [if_pos hn, if_pos ⟨hn, hrange.2⟩]
      rfl
    · rw [if_neg hn, if_neg (fun h => hn h.1)]
      rfl
  · have hu64 : ¬ IsU64 n := by
      unfold IsU64
      omega
    rw [dif_neg hrange, if_neg hu64]

include hread in
theorem bind_i64FromStr : (read n).bind i64FromStr = if IsI64 n then some (some n) else none := by
  show (read n).bind (Option.map StrOrI64.toI64 ∘ StrOrI64.deserialize) = _
  rw [← Option.map_bind, bind_strOrI64 hread]
  split_ifs <;> rfl

include hread in
theorem bind_i32FromStr :
    (read n).bind i32FromStr = if IsI64 n then some (some (asI32 n)) else none := by
  show (read n).bind (Option.map StrOrI64.toI32 ∘ StrOrI64.deserialize) = _
  rw [← Option.map_bind, bind_strOrI64 hread]
  split_ifs <;> rfl

theorem u64FromStr_numeral : u64FromStr (.string (numeral n)) =
    some (if IsU64 n then n.toNat else 0) := by
  show some ((parseU64 (numeral n)).getD 0) = _
  rw [parseU64, parseUnsigned_numeral]
  show some ((if IsU64 n then some n.toNat else none).getD 0) = _
  split_ifs <;> rfl

theorem i64FromStr_numeral :
    i64FromStr (.string (numeral n)) = some (if IsI64 n then some n else none) := by
  show some (parseI64 (numeral n)) = _
  rw [parseI64_numeral]

theorem i32FromStr_numeral :
    i32FromStr (.string (numeral n)) = some (if IsI64 n then some (asI32 n) else none) := by
  show some ((parseI64 (numeral n)).map asI32) = _
  rw [parseI64_numeral]
  split_ifs <;> rfl

end Forms

/-! ## The law of one integer -/

/-- An integer that fits is yielded from both forms. One that does not fit has the same outcome in both
forms, which is an error, the default for unusable input, or a value that holds no other integer. -/
structure TakesInteger {α : Type} (fromStr : Json → Option α) (integer : α → Option ℤ) (unusable : α)
    (Fits : ℤ → Prop) (read : ℤ → Option Json) (n : ℤ) : Prop where
  fits : Fits n → ∃ a, integer a = some n ∧ (read n).bind fromStr = some a ∧
    fromStr (.string (numeral n)) = some a
  same : ¬ Fits n → (read n).bind fromStr = fromStr (.string (numeral n))
  honest : ¬ Fits n → ∀ a, (read n).bind fromStr = some a ∨ fromStr (.string (numeral n)) = some a →
    a = unusable ∨ ∀ m, integer a = some m → m = n

section Law

variable {α : Type} {fromStr : Json → Option α} {integer : α → Option ℤ} {unusable : α}
  {Fits : ℤ → Prop} {read : ℤ → Option Json} {n : ℤ}

theorem takesInteger_of_fits (hn : Fits n) (a : α) (ha : integer a = some n)
    (hnumber : (read n).bind fromStr = some a) (hstring : fromStr (.string (numeral n)) = some a) :
    TakesInteger fromStr integer unusable Fits read n where
  fits _ := ⟨a, ha, hnumber, hstring⟩
  same h := absurd hn h
  honest h := absurd hn h

theorem not_takesInteger_of_error (hn : ¬ Fits n) (hnumber : (read n).bind fromStr = none) {a : α}
    (hstring : fromStr (.string (numeral n)) = some a) :
    ¬ TakesInteger fromStr integer unusable Fits read n := by
  intro h
  have hsame := h.same hn
  rw [hnumber, hstring] at hsame
  cases hsame

theorem takesInteger_iff_fits [Decidable (Fits n)] {a default : α} (ha : Fits n → integer a = some n)
    (hnumber : (read n).bind fromStr = if Fits n then some a else none)
    (hstring : fromStr (.string (numeral n)) = some (if Fits n then a else default)) :
    TakesInteger fromStr integer unusable Fits read n ↔ Fits n := by
  by_cases hn : Fits n
  · rw [if_pos hn] at hnumber hstring
    exact iff_of_true (takesInteger_of_fits hn a (ha hn) hnumber hstring) hn
  · rw [if_neg hn] at hnumber
    exact iff_of_false (not_takesInteger_of_error hn hnumber hstring) hn

variable (hread : ReadsIntegers read) (n)

include hread

theorem u64FromStr_takesInteger_iff :
    TakesInteger u64FromStr (fun a => some (a : ℤ)) 0 IsU64 read n ↔ IsU64 n := by
  have hvalue : IsU64 n → some (n.toNat : ℤ) = some n :=
    fun hn => congrArg some (Int.toNat_of_nonneg hn.1)
  exact takesInteger_iff_fits hvalue (bind_u64FromStr hread n) (u64FromStr_numeral n)

theorem i64FromStr_takesInteger_iff : TakesInteger i64FromStr id none IsI64 read n ↔ IsI64 n :=
  takesInteger_iff_fits (fun _ => rfl) (bind_i64FromStr hread n) (i64FromStr_numeral n)

theorem i32FromStr_takesInteger_iff : TakesInteger i32FromStr id none IsI32 read n ↔ IsI32 n := by
  have hnumber := bind_i32FromStr hread n
  have hstring := i32FromStr_numeral n
  by_cases hn : IsI32 n
  · rw [if_pos hn.isI64, asI32_eq_self_iff.mpr hn] at hnumber hstring
    exact iff_of_true (takesInteger_of_fits hn (some n) rfl hnumber hstring) hn
  · refine iff_of_false ?_ hn
    by_cases hi64 : IsI64 n
    · -- the cast makes another integer of it
      rw [if_pos hi64] at hnumber
      intro h
      rcases h.honest hn _ (.inl hnumber) with hnone | hother
      · cases hnone
      · exact hn (asI32_eq_self_iff.mp (hother _ rfl))
    · rw [if_neg hi64] at hnumber hstring
      exact not_takesInteger_of_error hn hnumber hstring

/-- **Two forms.** Each of the three functions keeps the law for just the integers of its type. -/
theorem takesInteger_iff :
    (TakesInteger u64FromStr (fun a => some (a : ℤ)) 0 IsU64 read n ↔ IsU64 n) ∧
      (TakesInteger i64FromStr id none IsI64 read n ↔ IsI64 n) ∧
        (TakesInteger i32FromStr id none IsI32 read n ↔ IsI32 n) :=
  ⟨u64FromStr_takesInteger_iff n hread, i64FromStr_takesInteger_iff n hread,
    i32FromStr_takesInteger_iff n hread⟩

end Law

/-- A parser that reads an integer as it is where it can, and as a float elsewhere. -/
def readInteger (n : ℤ) : Option Json :=
  some (.number (if h : -9223372036854775808 ≤ n ∧ n < 18446744073709551616 then .int n h
    else .float n))

theorem readsIntegers_readInteger : ReadsIntegers readInteger where
  fits n range := by rw [readInteger, dif_pos range]
  large n h := .inr ⟨n, by rw [readInteger, dif_neg h]⟩

theorem takesInteger_iff_five :
    (TakesInteger u64FromStr (fun a => some (a : ℤ)) 0 IsU64 readInteger 5 ↔ IsU64 5) ∧
      (TakesInteger i64FromStr id none IsI64 readInteger 5 ↔ IsI64 5) ∧
        (TakesInteger i32FromStr id none IsI32 readInteger 5 ↔ IsI32 5) :=
  takesInteger_iff 5 readsIntegers_readInteger

/-- The integer `2147483648` becomes `-2147483648` in `i32_from_str`, and `-5` is an error of
`u64_from_str` as a number and 0 as a string. -/
theorem not_takesInteger_samples :
    ¬ TakesInteger i32FromStr id none IsI32 readInteger 2147483648 ∧
      ¬ TakesInteger u64FromStr (fun a => some (a : ℤ)) 0 IsU64 readInteger (-5) := by
  constructor
  · rw [i32FromStr_takesInteger_iff 2147483648 readsIntegers_readInteger]
    decide
  · rw [u64FromStr_takesInteger_iff (-5) readsIntegers_readInteger]
    decide

end ChimesUtils
