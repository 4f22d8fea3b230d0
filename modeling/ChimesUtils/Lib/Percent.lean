import Mathlib

/-!
# Percent-encoding

A byte is escaped as `%` and two hexadecimal digits. An encoder escapes the bytes that it does not keep;
a decoder replaces the escapes that it knows (`unescape esc`), where `esc` reads the two bytes after the
`%`.

* `unescape_encode`: with `%` itself escaped, decoding gives the bytes back;
* `unescape_encode_of_keep`: with `%` kept, decoding does what it does to the bytes themselves;
* `unescape_eq_self_iff`: bytes without an escape are the ones that decoding leaves alone;
* `encode_eq_encode_iff`: which bytes have the same encoding;
* `unescape_append`: a byte that is in no escape splits the decoding.
-/

namespace ChimesUtils.Lib.Percent

/-- `%`. -/
def sign : UInt8 := 37

/-- An upper-case hexadecimal digit. -/
def hexDigit (n : ℕ) : UInt8 := if n < 10 then UInt8.ofNat (48 + n) else UInt8.ofNat (55 + n)

/-- The value of a hexadecimal digit, in either case. -/
def hexValue (b : UInt8) : Option ℕ :=
  if 48 ≤ b.toNat ∧ b.toNat ≤ 57 then some (b.toNat - 48)
  else if 65 ≤ b.toNat ∧ b.toNat ≤ 70 then some (b.toNat - 55)
  else if 97 ≤ b.toNat ∧ b.toNat ≤ 102 then some (b.toNat - 87)
  else none

/-- The byte that two hexadecimal digits write. -/
def hexPair (h l : UInt8) : Option UInt8 :=
  (hexValue h).bind fun x => (hexValue l).map fun y => UInt8.ofNat (16 * x + y)

/-- The escape of a byte. -/
def escape (b : UInt8) : List UInt8 := [sign, hexDigit (b.toNat / 16), hexDigit (b.toNat % 16)]

/-- Escape the bytes that are not kept. -/
def encode (keep : UInt8 → Bool) (bs : List UInt8) : List UInt8 :=
  bs.flatMap fun b => if keep b then [b] else escape b

/-- Replace the escapes from left to right. -/
def unescape (esc : UInt8 → UInt8 → Option UInt8) : List UInt8 → List UInt8
  | [] => []
  | [b] => [b]
  | [b, h] => [b, h]
  | b :: h :: l :: rest =>
    if b = sign then
      match esc h l with
      | some c => c :: unescape esc rest
      | none => b :: unescape esc (h :: l :: rest)
    else b :: unescape esc (h :: l :: rest)

/-- The bytes start with the two digits of an escape. -/
def Escaped (esc : UInt8 → UInt8 → Option UInt8) (bs : List UInt8) : Prop :=
  ∃ h l rest, bs = h :: l :: rest ∧ (esc h l).isSome = true

/-- No `%` is followed by the two digits of an escape. -/
def EscapeFree (esc : UInt8 → UInt8 → Option UInt8) (bs : List UInt8) : Prop :=
  ∀ h l, [sign, h, l] <:+: bs → esc h l = none

section Decoding

variable {esc : UInt8 → UInt8 → Option UInt8} {b c h l : UInt8} {bs : List UInt8}

theorem unescape_escape (he : esc h l = some c) (bs : List UInt8) :
    unescape esc (sign :: h :: l :: bs) = c :: unescape esc bs := by
  rw [unescape, if_pos rfl, he]

theorem unescape_plain (hb : b = sign → ¬ Escaped esc bs) :
    unescape esc (b :: bs) = b :: unescape esc bs := by
  cases bs with
  | nil => rfl
  | cons h bs =>
    cases bs with
    | nil => rfl
    | cons l rest =>
      rw [unescape]
      split_ifs with hsign
      · cases he : esc h l with
        | none => rfl
        | some c => exact absurd ⟨h, l, rest, rfl, by rw [he]; rfl⟩ (hb hsign)
      · rfl

theorem unescape_of_ne (hb : b ≠ sign) (bs : List UInt8) :
    unescape esc (b :: bs) = b :: unescape esc bs := unescape_plain fun h => absurd h hb

/-- **Decoding by cases**: the first byte is left alone, or it starts an escape. -/
theorem unescape_cases (esc : UInt8 → UInt8 → Option UInt8) (b : UInt8) (bs : List UInt8) :
    ((b = sign → ¬ Escaped esc bs) ∧ unescape esc (b :: bs) = b :: unescape esc bs) ∨
      ∃ h l c rest, b = sign ∧ bs = h :: l :: rest ∧ esc h l = some c ∧
        unescape esc (b :: bs) = c :: unescape esc rest := by
  by_cases hb : b = sign → ¬ Escaped esc bs
  · exact Or.inl ⟨hb, unescape_plain hb⟩
  · right
    push Not at hb
    obtain ⟨rfl, h, l, rest, rfl, hsome⟩ := hb
    obtain ⟨c, hc⟩ := Option.isSome_iff_exists.mp hsome
    exact ⟨h, l, c, rest, rfl, rfl, hc, unescape_escape hc rest⟩

theorem length_unescape_le (esc : UInt8 → UInt8 → Option UInt8) (bs : List UInt8) :
    (unescape esc bs).length ≤ bs.length := by
  induction hn : bs.length using Nat.strong_induction_on generalizing bs with
  | _ n ih =>
    cases bs with
    | nil => exact Nat.zero_le _
    | cons b bs =>
      rw [List.length_cons] at hn
      rcases unescape_cases esc b bs with ⟨-, heq⟩ | ⟨h, l, c, rest, -, rfl, -, heq⟩
      · rw [heq, List.length_cons]
        have hrest := ih bs.length (by omega) bs rfl
        omega
      · rw [heq, List.length_cons]
        simp only [List.length_cons] at hn
        have hrest := ih rest.length (by omega) rest rfl
        omega

theorem EscapeFree.tail (h : EscapeFree esc (b :: bs)) : EscapeFree esc bs :=
  fun x y hxy => h x y (hxy.trans (List.suffix_cons b bs).isInfix)

theorem escapeFree_cons (hb : b = sign → ¬ Escaped esc bs) (hbs : EscapeFree esc bs) :
    EscapeFree esc (b :: bs) := by
  intro x y hxy
  rcases List.infix_cons_iff.mp hxy with hprefix | hinfix
  · obtain ⟨rest, hrest⟩ := hprefix
    obtain ⟨hsign, hbs'⟩ := List.cons.inj hrest
    refine Option.not_isSome_iff_eq_none.mp fun hsome => ?_
    exact hb hsign.symm ⟨x, y, rest, hbs'.symm, hsome⟩
  · exact hbs x y hinfix

/-- **What decoding leaves alone.** -/
theorem unescape_eq_self_iff (esc : UInt8 → UInt8 → Option UInt8) (bs : List UInt8) :
    unescape esc bs = bs ↔ EscapeFree esc bs := by
  induction bs with
  | nil => exact iff_of_true rfl fun h l hinfix => by simp at hinfix
  | cons b bs ih =>
    rcases unescape_cases esc b bs with ⟨hb, heq⟩ | ⟨h, l, c, rest, rfl, rfl, he, heq⟩
    · rw [heq, List.cons.injEq, and_iff_right rfl, ih]
      exact ⟨escapeFree_cons hb, EscapeFree.tail⟩
    · refine iff_of_false (fun hself => ?_) fun hfree => ?_
      · have hlen := congrArg List.length (heq.symm.trans hself)
        have hle := length_unescape_le esc rest
        simp only [List.length_cons] at hlen
        omega
      · have hnone := hfree h l ⟨[], rest, rfl⟩
        rw [he] at hnone
        cases hnone

/-- A byte that is in no escape splits the decoding. -/
theorem unescape_append (hb : b ≠ sign) (hfirst : ∀ x, esc b x = none) (hsecond : ∀ x, esc x b = none)
    (as bs : List UInt8) :
    unescape esc (as ++ b :: bs) = unescape esc as ++ b :: unescape esc bs := by
  induction hn : as.length using Nat.strong_induction_on generalizing as with
  | _ n ih =>
    cases as with
    | nil => exact unescape_of_ne hb bs
    | cons a as =>
      rw [List.length_cons] at hn
      rcases unescape_cases esc a as with ⟨ha, heq⟩ | ⟨h, l, c, rest, rfl, rfl, he, heq⟩
      · -- an escape at the front would lie in `as`, since `b` is none of its digits
        have hplain : a = sign → ¬ Escaped esc (as ++ b :: bs) := by
          rintro hsign ⟨h, l, rest, hsplit, hsome⟩
          cases as with
          | nil =>
            rw [← (List.cons.inj hsplit).1, hfirst] at hsome
            cases hsome
          | cons x as =>
            obtain ⟨hx, hsplit⟩ := List.cons.inj hsplit
            rw [← hx] at hsome
            cases as with
            | nil =>
              rw [← (List.cons.inj hsplit).1, hsecond] at hsome
              cases hsome
            | cons y as =>
              rw [← (List.cons.inj hsplit).1] at hsome
              exact ha hsign ⟨x, y, as, rfl, hsome⟩
        rw [heq, List.cons_append, unescape_plain hplain, ih as.length (by omega) as rfl]
        rfl
      · simp only [List.length_cons] at hn
        rw [heq]
        simp only [List.cons_append]
        rw [unescape_escape he, ih rest.length (by omega) rest rfl]

end Decoding

/-! ## Encoding -/

section Encoding

variable {esc : UInt8 → UInt8 → Option UInt8} {keep : UInt8 → Bool} {b : UInt8} {bs : List UInt8}

/-- The decoder knows the escapes of the bytes that are not kept. -/
def Reads (keep : UInt8 → Bool) (esc : UInt8 → UInt8 → Option UInt8) : Prop :=
  ∀ b, keep b = false → esc (hexDigit (b.toNat / 16)) (hexDigit (b.toNat % 16)) = some b

theorem encode_cons_of_keep (hb : keep b = true) (bs : List UInt8) :
    encode keep (b :: bs) = b :: encode keep bs := by
  rw [encode, List.flatMap_cons, if_pos hb]
  rfl

theorem encode_cons_of_not_keep (hb : keep b = false) (bs : List UInt8) :
    encode keep (b :: bs) =
      sign :: hexDigit (b.toNat / 16) :: hexDigit (b.toNat % 16) :: encode keep bs := by
  rw [encode, List.flatMap_cons, hb]
  rfl

theorem mem_encode (h : b ∈ encode keep bs) :
    (b ∈ bs ∧ keep b = true) ∨ b = sign ∨ ∃ n < 16, b = hexDigit n := by
  obtain ⟨a, ha, hb⟩ := List.mem_flatMap.mp h
  split_ifs at hb with hkeep
  · obtain rfl := List.mem_singleton.mp hb
    exact Or.inl ⟨ha, hkeep⟩
  · have hlt := a.toNat_lt
    simp only [escape, List.mem_cons, List.not_mem_nil, or_false] at hb
    rcases hb with rfl | rfl | rfl
    · exact Or.inr (Or.inl rfl)
    · exact Or.inr (Or.inr ⟨_, by omega, rfl⟩)
    · exact Or.inr (Or.inr ⟨_, by omega, rfl⟩)

/-- **With `%` escaped**, decoding gives the bytes back. -/
theorem unescape_encode (hsign : keep sign = false) (hreads : Reads keep esc)
    (bs : List UInt8) : unescape esc (encode keep bs) = bs := by
  induction bs with
  | nil => rfl
  | cons b bs ih =>
    cases hb : keep b with
    | false => rw [encode_cons_of_not_keep hb, unescape_escape (hreads b hb), ih]
    | true =>
      have hne : b ≠ sign := by
        rintro rfl
        rw [hsign] at hb
        cases hb
      rw [encode_cons_of_keep hb, unescape_of_ne hne, ih]

/-- The bytes of an escape are kept, and `%` is none of its digits. -/
structure KeepsEscapes (keep : UInt8 → Bool) (esc : UInt8 → UInt8 → Option UInt8) : Prop where
  signKept : keep sign = true
  digits : ∀ h l, (esc h l).isSome = true → keep h = true ∧ keep l = true
  first : ∀ l, esc sign l = none
  second : ∀ h, esc h sign = none

theorem Escaped.of_encode (hk : KeepsEscapes keep esc) (h : Escaped esc (encode keep bs)) :
    Escaped esc bs := by
  obtain ⟨x, y, rest, heq, hsome⟩ := h
  have hkept : ∀ {a : UInt8} {as : List UInt8} {z : UInt8} {zs : List UInt8}, z ≠ sign →
      encode keep (a :: as) = z :: zs → a = z ∧ encode keep as = zs := by
    intro a as z zs hz hcons
    cases ha : keep a with
    | false =>
      rw [encode_cons_of_not_keep ha] at hcons
      exact absurd (List.cons.inj hcons).1.symm hz
    | true =>
      rw [encode_cons_of_keep ha] at hcons
      exact List.cons.inj hcons
  have hx : x ≠ sign := by
    rintro rfl
    rw [hk.first] at hsome
    cases hsome
  have hy : y ≠ sign := by
    rintro rfl
    rw [hk.second] at hsome
    cases hsome
  cases bs with
  | nil => cases heq
  | cons a as =>
    obtain ⟨hax, heq⟩ := hkept hx heq
    cases as with
    | nil => cases heq
    | cons a' as =>
      obtain ⟨hay, -⟩ := hkept hy heq
      exact ⟨a, a', as, rfl, by rwa [hax, hay]⟩

/-- **With `%` kept**, decoding does what it does to the bytes themselves. -/
theorem unescape_encode_of_keep (hk : KeepsEscapes keep esc) (hreads : Reads keep esc)
    (bs : List UInt8) : unescape esc (encode keep bs) = unescape esc bs := by
  induction hn : bs.length using Nat.strong_induction_on generalizing bs with
  | _ n ih =>
    cases bs with
    | nil => rfl
    | cons b bs =>
      rw [List.length_cons] at hn
      cases hb : keep b with
      | false =>
        have hne : b ≠ sign := by
          rintro rfl
          rw [hk.signKept] at hb
          cases hb
        rw [encode_cons_of_not_keep hb, unescape_escape (hreads b hb), unescape_of_ne hne,
          ih bs.length (by omega) bs rfl]
      | true =>
        rw [encode_cons_of_keep hb]
        rcases unescape_cases esc b bs with ⟨hplain, heq⟩ | ⟨h, l, c, rest, rfl, rfl, he, heq⟩
        · rw [heq, unescape_plain fun hsign hesc => hplain hsign (hesc.of_encode hk),
            ih bs.length (by omega) bs rfl]
        · obtain ⟨hh, hl⟩ := hk.digits h l (by rw [he]; rfl)
          simp only [List.length_cons] at hn
          rw [heq, encode_cons_of_keep hh, encode_cons_of_keep hl, unescape_escape he,
            ih rest.length (by omega) rest rfl]

/-- Every escape that the decoder knows is the encoding of its byte. -/
def Writes (keep : UInt8 → Bool) (esc : UInt8 → UInt8 → Option UInt8) : Prop :=
  ∀ h l c, esc h l = some c → keep c = false ∧ escape c = [sign, h, l]

theorem encode_unescape (hk : KeepsEscapes keep esc) (hwrites : Writes keep esc) (bs : List UInt8) :
    encode keep (unescape esc bs) = encode keep bs := by
  induction hn : bs.length using Nat.strong_induction_on generalizing bs with
  | _ n ih =>
    cases bs with
    | nil => rfl
    | cons b bs =>
      rw [List.length_cons] at hn
      rcases unescape_cases esc b bs with ⟨-, heq⟩ | ⟨h, l, c, rest, rfl, rfl, he, heq⟩
      · have hrest := ih bs.length (by omega) bs rfl
        rw [heq, encode, encode, List.flatMap_cons, List.flatMap_cons, ← encode, ← encode, hrest]
      · obtain ⟨hh, hl⟩ := hk.digits h l (by rw [he]; rfl)
        obtain ⟨hc, hescape⟩ := hwrites h l c he
        simp only [List.length_cons] at hn
        have hrest := ih rest.length (by omega) rest rfl
        rw [heq, encode, List.flatMap_cons, ← encode, hrest, hc, if_neg Bool.false_ne_true, hescape,
          encode_cons_of_keep hk.signKept, encode_cons_of_keep hh, encode_cons_of_keep hl]
        rfl

/-- **Equal encodings.** -/
theorem encode_eq_encode_iff (hk : KeepsEscapes keep esc) (hreads : Reads keep esc)
    (hwrites : Writes keep esc) (as bs : List UInt8) :
    encode keep as = encode keep bs ↔ unescape esc as = unescape esc bs := by
  constructor
  · intro heq
    rw [← unescape_encode_of_keep hk hreads as, heq, unescape_encode_of_keep hk hreads]
  · intro heq
    rw [← encode_unescape hk hwrites as, heq, encode_unescape hk hwrites]

end Encoding

/-! ## Hexadecimal digits -/

section Hex

theorem hexValue_hexDigit {n : ℕ} (h : n < 16) : hexValue (hexDigit n) = some n := by
  have hall : ∀ n < 16, hexValue (hexDigit n) = some n := by decide
  exact hall n h

theorem hexPair_hexDigit (b : UInt8) :
    hexPair (hexDigit (b.toNat / 16)) (hexDigit (b.toNat % 16)) = some b := by
  have hlt := b.toNat_lt
  rw [hexPair, hexValue_hexDigit (by omega), hexValue_hexDigit (by omega), Option.bind_some,
    Option.map_some, Nat.div_add_mod, UInt8.ofNat_toNat]

theorem reads_hexPair (keep : UInt8 → Bool) : Reads keep hexPair := fun b _ => hexPair_hexDigit b

theorem hexPair_isSome_iff {h l : UInt8} :
    (hexPair h l).isSome = true ↔ (hexValue h).isSome = true ∧ (hexValue l).isSome = true := by
  unfold hexPair
  cases hexValue h <;> cases hexValue l <;> simp

theorem hexPair_of_left {b : UInt8} (hb : hexValue b = none) (x : UInt8) : hexPair b x = none := by
  rw [hexPair, hb, Option.bind_none]

theorem hexPair_of_right {b : UInt8} (hb : hexValue b = none) (x : UInt8) : hexPair x b = none := by
  rw [hexPair, hb]
  cases hexValue x <;> rfl

end Hex

end ChimesUtils.Lib.Percent
