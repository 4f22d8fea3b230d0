import ChimesUtils.GlobalData.Codes

/-!
# Random strings

`generate_rand_string`, `generate_rand_numberstring` and `generate_rand_string_v2` append codes of random
`u16` numbers until the string is long enough, and cut it. A draw of zero appends nothing.

* `randLoop_ends`: the loop from any point at which it can be;
* `generates`: each function ends within the draws that it needs.
-/

namespace ChimesUtils

open Lib

/-- The loop of the three functions after `i` draws, with at most `fuel` more of them: the string, and
the number of draws that were taken. -/
def randLoop (encode : ℤ → Text) (len : ℕ) (draws : ℕ → UInt16) : ℕ → ℕ → Text → Option (Text × ℕ)
  | 0, i, retkey => if (utf8 retkey).length < len then none else some (retkey.take len, i)
  | fuel + 1, i, retkey =>
    if (utf8 retkey).length < len then
      randLoop encode len draws fuel (i + 1) (retkey ++ encode (draws i).toNat)
    else some (retkey.take len, i)

section Functions

variable (len : ℕ) (draws : ℕ → UInt16) (fuel : ℕ)

/-- `generate_rand_string`. -/
def generateRandString : Option (Text × ℕ) := randLoop numToString len draws fuel 0 []

/-- `generate_rand_numberstring`. -/
def generateRandNumberstring : Option (Text × ℕ) := randLoop numberToString len draws fuel 0 []

/-- `generate_rand_string_v2`. -/
def generateRandStringV2 : Option (Text × ℕ) := randLoop numToStringV2 len draws fuel 0 []

end Functions

/-- The number of draws among the first `n` that are not zero. -/
def nonZero (draws : ℕ → UInt16) (n : ℕ) : ℕ := Nat.count (fun i => draws i ≠ 0) n

/-! ## The loop -/

/-- What the loop needs of an encoder: letters of an alphabet of ASCII, and at least one of them for a
number that is not zero. -/
structure Encodes (encode : ℤ → Text) (alphabet : List Char) : Prop where
  mem : ∀ n : ℕ, ∀ c ∈ encode n, c ∈ alphabet
  ne_nil : ∀ n : ℕ, 0 < n → encode n ≠ []
  ascii : ∀ c ∈ alphabet, c.toNat < 128

theorem encodes_codeLoop {b : ℕ} {codec : Vector Char (b + 2)}
    (hascii : codec.toList.all fun c => c.toNat < 128) :
    Encodes (fun n => codeLoop codec n []) codec.toList where
  mem n c hc := by
    rw [codeLoop_eq, List.append_nil] at hc
    exact Positional.mem_of_mem_numeral codec hc
  ne_nil n hn := by
    rw [codeLoop_eq, List.append_nil]
    exact Positional.numeral_ne_nil codec hn
  ascii c hc := of_decide_eq_true (List.all_eq_true.mp hascii c hc)

section Loop

variable {encode : ℤ → Text} {alphabet : List Char} {len : ℕ} {draws : ℕ → UInt16}

theorem randLoop_succ {fuel i : ℕ} {retkey : Text} {r : Text × ℕ}
    (h : randLoop encode len draws fuel i retkey = some r) :
    randLoop encode len draws (fuel + 1) i retkey = some r := by
  induction fuel generalizing i retkey with
  | zero =>
    unfold randLoop at h ⊢
    by_cases hlen : (utf8 retkey).length < len
    · rw [if_pos hlen] at h
      cases h
    · rw [if_neg hlen] at h ⊢
      exact h
  | succ fuel ih =>
    rw [randLoop] at h ⊢
    by_cases hlen : (utf8 retkey).length < len
    · rw [if_pos hlen] at h ⊢
      exact ih h
    · rw [if_neg hlen] at h ⊢
      exact h

theorem randLoop_mono {fuel fuel' i : ℕ} {retkey : Text} {r : Text × ℕ} (hle : fuel ≤ fuel')
    (h : randLoop encode len draws fuel i retkey = some r) :
    randLoop encode len draws fuel' i retkey = some r := by
  induction hle with
  | refl => exact h
  | step _ ih => exact randLoop_succ ih

/-- The loop after `i` draws: letters of the alphabet, at least as many as draws that were not zero, and
not more of these than letters are asked for. -/
structure RandInv (alphabet : List Char) (len : ℕ) (draws : ℕ → UInt16) (i : ℕ) (retkey : Text) :
    Prop where
  mem : ∀ c ∈ retkey, c ∈ alphabet
  drawn : nonZero draws i ≤ retkey.length
  needed : nonZero draws i ≤ len

theorem RandInv.step {i : ℕ} {retkey : Text} (hE : Encodes encode alphabet)
    (h : RandInv alphabet len draws i retkey) (hlen : retkey.length < len) :
    RandInv alphabet len draws (i + 1) (retkey ++ encode (draws i).toNat) := by
  have hcount : nonZero draws (i + 1) = nonZero draws i + if draws i ≠ 0 then 1 else 0 :=
    Nat.count_succ _ _
  have hdrawn := h.drawn
  refine ⟨List.forall_mem_append.mpr ⟨h.mem, hE.mem _⟩, ?_, ?_⟩
  · rw [hcount, List.length_append]
    by_cases hzero : draws i = 0
    · rw [if_neg (not_not_intro hzero)]
      omega
    · have hpos : 0 < (draws i).toNat := by
        rw [Nat.pos_iff_ne_zero, Ne, ← UInt16.toNat_zero, UInt16.toNat_inj]
        exact hzero
      have hletter := List.length_pos_iff.mpr (hE.ne_nil _ hpos)
      rw [if_pos hzero]
      omega
  · rw [hcount]
    split_ifs <;> omega

/-- **The loop ends** with the string that is asked for, if enough of the draws up to the end of its
fuel are not zero. -/
theorem randLoop_ends {fuel i : ℕ} {retkey : Text} (hE : Encodes encode alphabet)
    (h : RandInv alphabet len draws i retkey) (henough : len ≤ nonZero draws (i + fuel)) :
    ∃ s n, randLoop encode len draws fuel i retkey = some (s, n) ∧ nonZero draws n ≤ len ∧
      s.length = len ∧ ∀ c ∈ s, c ∈ alphabet := by
  have hbytes : (utf8 retkey).length = retkey.length :=
    length_utf8_of_ascii fun c hc => hE.ascii c (h.mem c hc)
  have hcut : len ≤ retkey.length → nonZero draws i ≤ len ∧ (retkey.take len).length = len ∧
      ∀ c ∈ retkey.take len, c ∈ alphabet := fun hlen =>
    ⟨h.needed, List.length_take_of_le hlen, fun c hc => h.mem c (List.mem_of_mem_take hc)⟩
  induction fuel generalizing i retkey with
  | zero =>
    have hlen : len ≤ retkey.length := henough.trans h.drawn
    refine ⟨retkey.take len, i, ?_, hcut hlen⟩
    rw [randLoop, if_neg (by omega)]
  | succ fuel ih =>
    rw [randLoop, hbytes]
    by_cases hlen : retkey.length < len
    · have hnext := h.step hE hlen
      rw [if_pos hlen]
      refine ih hnext (by rwa [Nat.add_right_comm]) ?_ fun hlen' =>
        ⟨hnext.needed, List.length_take_of_le hlen', fun c hc => hnext.mem c (List.mem_of_mem_take hc)⟩
      exact length_utf8_of_ascii fun c hc => hE.ascii c (hnext.mem c hc)
    · rw [if_neg hlen]
      exact ⟨retkey.take len, i, rfl, hcut (not_lt.mp hlen)⟩

end Loop

/-! ## The functions -/

/-- With enough draws that are not zero among the first `N`, the function ends after some number of
draws, not more of which are not zero than characters are asked for. It returns as many characters as
were asked for, all of the alphabet. -/
def Generates (generate : ℕ → (ℕ → UInt16) → ℕ → Option (Text × ℕ)) (alphabet : List Char) (len : ℕ)
    (draws : ℕ → UInt16) (N : ℕ) : Prop :=
  ∃ s n, (∀ fuel, N ≤ fuel → generate len draws fuel = some (s, n)) ∧ nonZero draws n ≤ len ∧
    s.length = len ∧ ∀ c ∈ s, c ∈ alphabet

theorem generates_randLoop {encode : ℤ → Text} {alphabet : List Char} (hE : Encodes encode alphabet)
    {len N : ℕ} {draws : ℕ → UInt16} (henough : len ≤ nonZero draws N) :
    Generates (fun len draws fuel => randLoop encode len draws fuel 0 []) alphabet len draws N := by
  have hstart : RandInv alphabet len draws 0 [] := by
    have hzero : nonZero draws 0 = 0 := Nat.count_zero _
    exact ⟨List.forall_mem_nil _, hzero.le, hzero.le.trans (Nat.zero_le _)⟩
  obtain ⟨s, n, hloop, hs⟩ := randLoop_ends hE hstart (by rwa [Nat.zero_add])
  exact ⟨s, n, fun fuel hfuel => randLoop_mono hfuel hloop, hs⟩

/-- **Random strings.** For every length and every stream of draws with at least as many of them that
are not zero. -/
theorem generates {len N : ℕ} {draws : ℕ → UInt16} (henough : len ≤ nonZero draws N) :
    Generates generateRandString baseCodec.toList len draws N ∧
      Generates generateRandNumberstring baseCodecNumber.toList len draws N ∧
        Generates generateRandStringV2 baseCodecV2.toList len draws N :=
  ⟨generates_randLoop (encodes_codeLoop (b := 30) (by decide)) henough,
    generates_randLoop (encodes_codeLoop (b := 8) (by decide)) henough,
    generates_randLoop (encodes_codeLoop (b := 54) (by decide)) henough⟩

/-- Draws of which every second one is zero. -/
def alternating (i : ℕ) : UInt16 := if i % 2 = 0 then 0 else 40000

theorem generates_alternating :
    Generates generateRandString baseCodec.toList 3 alternating 6 ∧
      Generates generateRandNumberstring baseCodecNumber.toList 3 alternating 6 ∧
        Generates generateRandStringV2 baseCodecV2.toList 3 alternating 6 :=
  generates (by decide)

end ChimesUtils
