import Mathlib

/-!
# RSA with PKCS #1 v1.5 padding

A message is padded to the length of the modulus with `0, 2`, at least eight random octets that are not
zero, and `0`. The number that the octets stand for is raised to a power modulo the modulus.

* `i2osp_os2ip`: octets and numbers;
* `unpad_pad`: the padding is found again;
* `KeyPair.power_power`: the exponents undo each other;
* `KeyPair.decrypt_encrypt`: what was encrypted is decrypted, if it was not too long.
-/

namespace ChimesUtils.Lib.Rsa

/-! ## Octets and numbers -/

/-- The number of octets, the first of which counts most. -/
def os2ip (bytes : List UInt8) : ℕ := bytes.foldl (fun n b => n * 256 + b.toNat) 0

/-- The last octets of a number. -/
def i2osp : ℕ → ℕ → List UInt8
  | 0, _ => []
  | k + 1, n => i2osp k (n / 256) ++ [UInt8.ofNat (n % 256)]

theorem os2ip_concat (bytes : List UInt8) (b : UInt8) :
    os2ip (bytes ++ [b]) = os2ip bytes * 256 + b.toNat := List.foldl_concat _ _ _ _

theorem length_i2osp (k n : ℕ) : (i2osp k n).length = k := by
  induction k generalizing n with
  | zero => rfl
  | succ k ih => rw [i2osp, List.length_append, ih, List.length_singleton]

theorem os2ip_lt (bytes : List UInt8) : os2ip bytes < 256 ^ bytes.length := by
  induction bytes using List.reverseRecOn with
  | nil => exact Nat.one_pos
  | append_singleton bytes b ih =>
    have hb := b.toNat_lt
    rw [os2ip_concat, List.length_append, List.length_singleton, pow_succ]
    omega

theorem os2ip_zero_cons (bytes : List UInt8) : os2ip (0 :: bytes) = os2ip bytes := rfl

/-- **Octets** are read back. -/
theorem i2osp_os2ip (bytes : List UInt8) : i2osp bytes.length (os2ip bytes) = bytes := by
  induction bytes using List.reverseRecOn with
  | nil => rfl
  | append_singleton bytes b ih =>
    have hb := b.toNat_lt
    have hquot : (os2ip bytes * 256 + b.toNat) / 256 = os2ip bytes := by omega
    have hrem : (os2ip bytes * 256 + b.toNat) % 256 = b.toNat := by omega
    rw [List.length_append, List.length_singleton, i2osp, os2ip_concat, hquot, hrem, ih,
      UInt8.ofNat_toNat]

/-- **Numbers** are read back. -/
theorem os2ip_i2osp {k n : ℕ} (h : n < 256 ^ k) : os2ip (i2osp k n) = n := by
  induction k generalizing n with
  | zero =>
    obtain rfl : n = 0 := by simpa using h
    rfl
  | succ k ih =>
    have hquot : n / 256 < 256 ^ k := Nat.div_lt_of_lt_mul (by rwa [pow_succ'] at h)
    have hoctet : (UInt8.ofNat (n % 256)).toNat = n % 256 :=
      UInt8.toNat_ofNat_of_lt' (Nat.mod_lt n (by decide))
    rw [i2osp, os2ip_concat, ih hquot, hoctet]
    omega

/-! ## Padding -/

/-- Random octets that are not zero, as many as are asked for. -/
structure Rng where
  fill : ℕ → List UInt8
  length_fill : ∀ n, (fill n).length = n
  fill_ne_zero : ∀ n, 0 ∉ fill n

/-- The padded message, of `k` octets. -/
def pad (k : ℕ) (rng : Rng) (msg : List UInt8) : List UInt8 :=
  0 :: 2 :: (rng.fill (k - msg.length - 3) ++ 0 :: msg)

/-- The message of padded octets. -/
def unpad : List UInt8 → Option (List UInt8)
  | 0 :: 2 :: rest =>
    if 8 ≤ (rest.takeWhile (· ≠ 0)).length ∧ rest.dropWhile (· ≠ 0) ≠ [] then
      some (rest.dropWhile (· ≠ 0)).tail
    else none
  | _ => none

theorem length_pad {k : ℕ} {msg : List UInt8} (h : msg.length + 11 ≤ k) (rng : Rng) :
    (pad k rng msg).length = k := by
  simp only [pad, List.length_cons, List.length_append, rng.length_fill]
  omega

/-- **The padding** is found again. -/
theorem unpad_pad {k : ℕ} {msg : List UInt8} (h : msg.length + 11 ≤ k) (rng : Rng) :
    unpad (pad k rng msg) = some msg := by
  have hfill : ∀ b ∈ rng.fill (k - msg.length - 3), decide (b ≠ 0) = true := fun b hb =>
    decide_eq_true fun he => rng.fill_ne_zero _ (he ▸ hb)
  have htake : (rng.fill (k - msg.length - 3) ++ 0 :: msg).takeWhile (· ≠ 0) =
      rng.fill (k - msg.length - 3) := by
    rw [List.takeWhile_append_of_pos hfill, List.takeWhile_cons_of_neg (by simp), List.append_nil]
  have hdrop : (rng.fill (k - msg.length - 3) ++ 0 :: msg).dropWhile (· ≠ 0) = 0 :: msg := by
    rw [List.dropWhile_append_of_pos hfill, List.dropWhile_cons_of_neg (by simp)]
  rw [pad, unpad, htake, hdrop, rng.length_fill, if_pos ⟨by omega, List.cons_ne_nil _ _⟩, List.tail_cons]

/-! ## Keys -/

structure PublicKey where
  modulus : ℕ
  exponent : ℕ
  deriving DecidableEq

/-- A private key, with the modulus and its exponent. -/
structure PrivateKey where
  modulus : ℕ
  exponent : ℕ
  deriving DecidableEq

/-- The number of octets of a modulus. -/
def size (modulus : ℕ) : ℕ := Nat.log 256 modulus + 1

/-- `none` for a message that is too long. -/
def encrypt (key : PublicKey) (rng : Rng) (msg : List UInt8) : Option (List UInt8) :=
  if msg.length + 11 ≤ size key.modulus then
    some (i2osp (size key.modulus)
      (os2ip (pad (size key.modulus) rng msg) ^ key.exponent % key.modulus))
  else none

/-- `none` for octets that are no encrypted message. -/
def decrypt (key : PrivateKey) (bytes : List UInt8) : Option (List UInt8) :=
  if bytes.length = size key.modulus then
    unpad (i2osp (size key.modulus) (os2ip bytes ^ key.exponent % key.modulus))
  else none

/-- Two primes, and exponents that undo each other. -/
structure KeyPair where
  p : ℕ
  q : ℕ
  e : ℕ
  d : ℕ
  prime_p : p.Prime
  prime_q : q.Prime
  ne : p ≠ q
  inverse : e * d % ((p - 1) * (q - 1)) = 1

namespace KeyPair

variable (K : KeyPair)

def publicKey : PublicKey := ⟨K.p * K.q, K.e⟩

def privateKey : PrivateKey := ⟨K.p * K.q, K.d⟩

/-- Powers modulo a prime, with Fermat's little theorem. -/
theorem pow_modEq {r : ℕ} (hr : r.Prime) {n : ℕ} (h : r - 1 ∣ n - 1) (hn : 0 < n) (m : ℕ) :
    m ^ n ≡ m [MOD r] := by
  have : Fact r.Prime := ⟨hr⟩
  obtain ⟨c, hc⟩ := h
  rw [← ZMod.natCast_eq_natCast_iff, Nat.cast_pow]
  by_cases hm : (m : ZMod r) = 0
  · rw [hm, zero_pow hn.ne']
  · have hpow : n = (r - 1) * c + 1 := by omega
    rw [hpow, pow_succ, pow_mul, ZMod.pow_card_sub_one_eq_one hm, one_pow, one_mul]

theorem inverse_pos : 0 < K.e * K.d := by
  have hinverse := K.inverse
  by_contra hzero
  obtain h : K.e * K.d = 0 := by omega
  rw [h, Nat.zero_mod] at hinverse
  cases hinverse

theorem inverse_dvd : (K.p - 1) * (K.q - 1) ∣ K.e * K.d - 1 := by
  have hdiv := Nat.div_add_mod (K.e * K.d) ((K.p - 1) * (K.q - 1))
  rw [K.inverse] at hdiv
  exact ⟨K.e * K.d / ((K.p - 1) * (K.q - 1)), by omega⟩

/-- **Powers.** The exponents undo each other. -/
theorem power_power {m : ℕ} (hm : m < K.p * K.q) :
    (m ^ K.e % (K.p * K.q)) ^ K.d % (K.p * K.q) = m := by
  have hp : m ^ (K.e * K.d) ≡ m [MOD K.p] :=
    pow_modEq K.prime_p ((dvd_mul_right _ _).trans K.inverse_dvd) K.inverse_pos m
  have hq : m ^ (K.e * K.d) ≡ m [MOD K.q] :=
    pow_modEq K.prime_q ((dvd_mul_left _ _).trans K.inverse_dvd) K.inverse_pos m
  have hcoprime : K.p.Coprime K.q := (Nat.coprime_primes K.prime_p K.prime_q).mpr K.ne
  have hall : m ^ (K.e * K.d) ≡ m [MOD K.p * K.q] :=
    (Nat.modEq_and_modEq_iff_modEq_mul hcoprime).mp ⟨hp, hq⟩
  rw [← Nat.pow_mod, ← pow_mul]
  exact Eq.trans hall (Nat.mod_eq_of_lt hm)

theorem modulus_pos : 0 < K.p * K.q := Nat.mul_pos K.prime_p.pos K.prime_q.pos

theorem lt_pow_size {n : ℕ} : n < 256 ^ size n := Nat.lt_pow_succ_log_self (by decide) n

theorem os2ip_pad_lt {n : ℕ} (hn : 0 < n) {msg : List UInt8} (h : msg.length + 11 ≤ size n) (rng : Rng) :
    os2ip (pad (size n) rng msg) < n := by
  have hlength : (2 :: (rng.fill (size n - msg.length - 3) ++ 0 :: msg)).length + 1 = size n :=
    length_pad h rng
  have hlog : (2 :: (rng.fill (size n - msg.length - 3) ++ 0 :: msg)).length = Nat.log 256 n :=
    Nat.succ_injective hlength
  rw [pad, os2ip_zero_cons]
  refine lt_of_lt_of_le (os2ip_lt _) ?_
  rw [hlog]
  exact Nat.pow_log_le_self 256 hn.ne'

/-- **Messages.** What was encrypted is decrypted, whatever the random octets. -/
theorem decrypt_encrypt {rng : Rng} {msg c : List UInt8} (h : encrypt K.publicKey rng msg = some c) :
    decrypt K.privateKey c = some msg := by
  obtain ⟨hlength, rfl⟩ : msg.length + 11 ≤ size (K.p * K.q) ∧ i2osp (size (K.p * K.q))
      (os2ip (pad (size (K.p * K.q)) rng msg) ^ K.e % (K.p * K.q)) = c := by
    unfold encrypt at h
    split_ifs at h with hlength
    exact ⟨hlength, Option.some.inj h⟩
  have hpower : os2ip (pad (size (K.p * K.q)) rng msg) ^ K.e % (K.p * K.q) < 256 ^ size (K.p * K.q) :=
    (Nat.mod_lt _ K.modulus_pos).trans lt_pow_size
  have hpad := i2osp_os2ip (pad (size (K.p * K.q)) rng msg)
  rw [length_pad hlength rng] at hpad
  rw [decrypt, privateKey, if_pos (length_i2osp _ _), os2ip_i2osp hpower,
    K.power_power (os2ip_pad_lt K.modulus_pos hlength rng), hpad, unpad_pad hlength]

end KeyPair

end ChimesUtils.Lib.Rsa
