import ChimesUtils.Lib.Rewrite

/-!
# The standard library of the source

Strings are lists of characters, and `utf8` gives their bytes. `isWhitespace` is the Unicode
`White_Space` property that the trimming functions use. Machine words are natural numbers; the
arithmetic on `u64` depends on the build profile: a debug build panics (`none`) where a release build
wraps.
-/

namespace ChimesUtils

open Lib

/-- A string. -/
abbrev Text := List Char

/-- `char::is_whitespace`. -/
def isWhitespace (c : Char) : Bool :=
  (9 ≤ c.toNat && c.toNat ≤ 13) || c.toNat == 0x20 || c.toNat == 0x85 || c.toNat == 0xa0 ||
    c.toNat == 0x1680 || (0x2000 ≤ c.toNat && c.toNat ≤ 0x200a) || c.toNat == 0x2028 ||
    c.toNat == 0x2029 || c.toNat == 0x202f || c.toNat == 0x205f || c.toNat == 0x3000

theorem isWhitespace_eq_false {c : Char} (h : 0x20 < c.toNat) (h' : c.toNat < 0x7f) :
    isWhitespace c = false := by
  unfold isWhitespace
  simp only [Bool.or_eq_false_iff, Bool.and_eq_false_imp, decide_eq_false_iff_not, decide_eq_true_eq,
    beq_eq_false_iff_ne]
  omega

theorem isWhitespace_of_isAlpha {c : Char} (h : c.isAlpha = true) : isWhitespace c = false := by
  have hrange : (65 ≤ c.toNat ∧ c.toNat ≤ 90) ∨ (97 ≤ c.toNat ∧ c.toNat ≤ 122) := by
    simpa [Char.isAlpha, Char.isUpper, Char.isLower, UInt32.le_iff_toNat_le] using h
  exact isWhitespace_eq_false (by omega) (by omega)

/-- `str::trim_end`. -/
def trimEnd (s : Text) : Text := s.rdropWhile isWhitespace

/-- `str::trim`. -/
def trim (s : Text) : Text := (s.dropWhile isWhitespace).rdropWhile isWhitespace

theorem trimEnd_concat (s : Text) {c : Char} (hc : isWhitespace c = false) :
    trimEnd (s ++ [c]) = s ++ [c] :=
  List.rdropWhile_concat_neg _ _ _ (by rw [hc]; decide)

theorem trimEnd_concat_space (s : Text) {c : Char} (hc : isWhitespace c = false) :
    trimEnd (s ++ [c] ++ [' ']) = s ++ [c] := by
  rw [trimEnd, List.rdropWhile_concat_pos _ _ _ (by decide)]
  exact trimEnd_concat s hc

/-- `str::starts_with`. -/
def startsWith (s p : Text) : Bool := decide (p <+: s)

/-- `str::ends_with`. -/
def endsWith (s p : Text) : Bool := decide (p <:+ s)

/-! ## Bytes -/

abbrev Bytes := List UInt8

/-- The bytes of a string. -/
def utf8 (s : Text) : Bytes := s.flatMap String.utf8EncodeChar

/-- `String::from_utf8`. -/
def fromUtf8 (b : Bytes) : Option Text := (String.fromUTF8? b.toByteArray).map String.toList

theorem fromUtf8_utf8 (s : Text) : fromUtf8 (utf8 s) = some s := by
  have hbytes : (utf8 s).toByteArray = (String.ofList s).toByteArray := rfl
  have hvalid := (String.ofList s).isValidUTF8
  rw [fromUtf8, hbytes, String.fromUTF8?, dif_pos hvalid, Option.map_some]
  exact congrArg some String.toList_ofList

theorem utf8_of_fromUtf8 {b : Bytes} {s : Text} (h : fromUtf8 b = some s) : utf8 s = b := by
  obtain ⟨str, hstr, rfl⟩ := Option.map_eq_some_iff.mp h
  unfold String.fromUTF8? at hstr
  split_ifs at hstr with hvalid
  have hencode : (utf8 str.toList).toByteArray = b.toByteArray := by
    have hbytes : (utf8 str.toList).toByteArray = str.toByteArray := String.utf8Encode_toList
    rw [hbytes, ← Option.some.inj hstr]
    rfl
  have hdata := congrArg ByteArray.data hencode
  rw [List.data_toByteArray, List.data_toByteArray] at hdata
  exact congrArg Array.toList hdata

theorem utf8_cons (c : Char) (s : Text) : utf8 (c :: s) = String.utf8EncodeChar c ++ utf8 s :=
  List.flatMap_cons

theorem utf8_append (s t : Text) : utf8 (s ++ t) = utf8 s ++ utf8 t := List.flatMap_append

theorem utf8EncodeChar_of_ascii {c : Char} (h : c.toNat < 128) :
    String.utf8EncodeChar c = [UInt8.ofNat c.toNat] := by
  unfold String.utf8EncodeChar
  exact if_pos (Nat.le_of_lt_succ h)

theorem length_utf8_of_ascii {s : Text} (h : ∀ c ∈ s, c.toNat < 128) : (utf8 s).length = s.length := by
  induction s with
  | nil => rfl
  | cons c s ih =>
    rw [List.forall_mem_cons] at h
    rw [utf8_cons, utf8EncodeChar_of_ascii h.1, List.length_append, List.length_singleton, ih h.2,
      List.length_cons, Nat.add_comm]

/-! ## Words -/

/-- The build profile: whether arithmetic overflow panics or wraps. -/
inductive Profile where
  | debug
  | release
  deriving DecidableEq, Repr

namespace Profile

/-- What an operation on `u64` gives outside the range: a panic, or the wrapped value. -/
def overflow (p : Profile) (wrapped : ℕ) : Option ℕ :=
  match p with
  | .debug => none
  | .release => some wrapped

/-- `a + b` on `u64`. -/
def addU64 (p : Profile) (a b : ℕ) : Option ℕ :=
  if a + b < 2 ^ 64 then some (a + b) else p.overflow ((a + b) % 2 ^ 64)

/-- `a - b` on `u64`. -/
def subU64 (p : Profile) (a b : ℕ) : Option ℕ :=
  if b ≤ a then some (a - b) else p.overflow (a + 2 ^ 64 - b)

theorem addU64_of_lt {p : Profile} {a b : ℕ} (h : a + b < 2 ^ 64) : p.addU64 a b = some (a + b) :=
  if_pos h

theorem subU64_of_le {p : Profile} {a b : ℕ} (h : b ≤ a) : p.subU64 a b = some (a - b) := if_pos h

end Profile

/-- `x as u64` for an `i64`. -/
def asU64 (x : ℤ) : ℕ := (x % 2 ^ 64).toNat

end ChimesUtils
