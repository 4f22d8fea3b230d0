import ChimesUtils.Config.Yaml
import ChimesUtils.Lib.Rsa
import ChimesUtils.Script.Base64

/-!
# Encrypted passwords

`rsa_encrypt_by_public_key` and `rsa_decrypt_by_private_key` read their keys from the configuration, in
base64, and put base64 around the encrypted bytes. The keys, the encryption and the base64 engine of the
crates are parameters; `RsaCrate.Laws` says what is documented of the encryption.

* `rsa_roundTrip`: which texts are encrypted, and that they are decrypted;
* `rsaDecryptByPrivateKey_of_foreign`: what comes of a text or a key with other characters.
-/

namespace ChimesUtils

open Lib

/-- What the functions use of the crate `rsa`. -/
structure RsaCrate (PrivateKey PublicKey Rng : Type) where
  fromPkcs8Der : Bytes → Except Text PrivateKey
  fromPublicKeyDer : Bytes → Except Text PublicKey
  decrypt : PrivateKey → Bytes → Except Text Bytes
  encrypt : PublicKey → Rng → Bytes → Except Text Bytes

variable {PrivateKey PublicKey Rng : Type} (C : RsaCrate PrivateKey PublicKey Rng) (E : Engine)

/-- `BASE64_STANDARD.decode`, with no bytes for a text that is no base64. -/
def decodeOrEmpty (text : Text) : Bytes :=
  match E.decode text with
  | .ok rs => rs
  | .error _ => []

def rsaDecryptByPrivateKey (conf : WebServerConfig) (token : Text) : Option Text :=
  match C.fromPkcs8Der (decodeOrEmpty E conf.rsaPasswordPrivateKey) with
  | .ok pkey =>
    match C.decrypt pkey (decodeOrEmpty E token) with
    | .ok rs => fromUtf8 rs
    | .error _ => none
  | .error _ => none

def rsaEncryptByPublicKey (conf : WebServerConfig) (rng : Rng) (token : Text) : Option Text :=
  match C.fromPublicKeyDer (decodeOrEmpty E conf.rsaPasswordPublicKey) with
  | .ok pkey =>
    match C.encrypt pkey rng (utf8 token) with
    | .ok rs => some (E.encode rs)
    | .error _ => none
  | .error _ => none

/-- PKCS #1 v1.5: a key of at least eleven bytes encrypts the messages that are eleven bytes shorter than
it, and the private key that goes with it decrypts them. No bytes are no key and no encrypted message. -/
structure RsaCrate.Laws (Matches : PublicKey → PrivateKey → Prop) (size : PublicKey → ℕ) : Prop where
  encrypt_iff : ∀ key rng msg, 11 ≤ size key →
    ((∃ c, C.encrypt key rng msg = .ok c) ↔ msg.length + 11 ≤ size key)
  decrypt_encrypt : ∀ pub priv rng msg c, Matches pub priv → C.encrypt pub rng msg = .ok c →
    C.decrypt priv c = .ok msg
  fromPkcs8Der_nil : ∃ err, C.fromPkcs8Der [] = .error err
  fromPublicKeyDer_nil : ∃ err, C.fromPublicKeyDer [] = .error err
  decrypt_nil : ∀ key, ∃ err, C.decrypt key [] = .error err

/-! ## Texts that are no base64 -/

section Laws

variable {C E} {Matches : PublicKey → PrivateKey → Prop} {size : PublicKey → ℕ}
  (hC : C.Laws Matches size) (hE : E.Implements standardAlphabet true) {conf : WebServerConfig}

/-- A character that is not in the alphabet and no padding. -/
def Foreign (text : Text) : Prop := ∃ c ∈ text, c ∉ standardAlphabet.toList ∧ c ≠ '='

include hE in
theorem decodeOrEmpty_of_foreign {text : Text} (h : Foreign text) : decodeOrEmpty E text = [] := by
  obtain ⟨c, hc, hother, hpad⟩ := h
  obtain ⟨err, herr⟩ := hE.rejects text c hc hother fun _ => hpad
  rw [decodeOrEmpty, herr]

include hE in
theorem decodeOrEmpty_encode (x : Bytes) : decodeOrEmpty E (E.encode x) = x := by
  rw [decodeOrEmpty, hE.encode_eq, hE.decode_encode]

include hC hE in
/-- A private key or a text with another character, such as a line break, decrypts nothing. -/
theorem rsaDecryptByPrivateKey_of_foreign {token : Text}
    (h : Foreign conf.rsaPasswordPrivateKey ∨ Foreign token) :
    rsaDecryptByPrivateKey C E conf token = none := by
  unfold rsaDecryptByPrivateKey
  rcases h with hkey | htoken
  · obtain ⟨err, herr⟩ := hC.fromPkcs8Der_nil
    rw [decodeOrEmpty_of_foreign hE hkey, herr]
  · rw [decodeOrEmpty_of_foreign hE htoken]
    cases C.fromPkcs8Der (decodeOrEmpty E conf.rsaPasswordPrivateKey) with
    | error => rfl
    | ok key =>
      obtain ⟨err, herr⟩ := hC.decrypt_nil key
      simp only [herr]

include hC hE in
theorem rsaEncryptByPublicKey_of_foreign (h : Foreign conf.rsaPasswordPublicKey) (rng : Rng)
    (token : Text) : rsaEncryptByPublicKey C E conf rng token = none := by
  obtain ⟨err, herr⟩ := hC.fromPublicKeyDer_nil
  rw [rsaEncryptByPublicKey, decodeOrEmpty_of_foreign hE h, herr]

theorem foreign_of_broken {text broken : Text} (h : Broken text broken) (hne : broken ≠ text) :
    Foreign broken := by
  induction h with
  | nil => exact absurd rfl hne
  | keep c _ ih =>
    obtain ⟨b, hb, hforeign⟩ := ih fun he => hne (he ▸ rfl)
    exact ⟨b, List.mem_cons_of_mem c hb, hforeign⟩
  | newline _ _ => exact ⟨'\n', List.mem_cons_self, standardAlphabet_clean.2, by decide⟩

/-! ## Round trip -/

variable {pub : PublicKey} {priv : PrivateKey}
  (hpub : C.fromPublicKeyDer (decodeOrEmpty E conf.rsaPasswordPublicKey) = .ok pub)
  (hpriv : C.fromPkcs8Der (decodeOrEmpty E conf.rsaPasswordPrivateKey) = .ok priv)

include hpub in
theorem rsaEncryptByPublicKey_eq_some {rng : Rng} {token c : Text} :
    rsaEncryptByPublicKey C E conf rng token = some c ↔
      ∃ rs, C.encrypt pub rng (utf8 token) = .ok rs ∧ c = E.encode rs := by
  simp only [rsaEncryptByPublicKey, hpub]
  cases C.encrypt pub rng (utf8 token) with
  | error err => simp
  | ok rs => simp [eq_comm]

include hC hE hpub hpriv in
/-- **Passwords.** With a pair of keys in the configuration, and for all random octets: just the texts
whose UTF-8 is at least eleven bytes shorter than the key are encrypted; each is decrypted again; and what
was encrypted is not decrypted any more once it is broken into lines. -/
theorem rsa_roundTrip (hmatches : Matches pub priv) (hsize : 11 ≤ size pub) (rng : Rng) (token : Text) :
    (rsaEncryptByPublicKey C E conf rng token = none ↔ size pub < (utf8 token).length + 11) ∧
    ∀ c, rsaEncryptByPublicKey C E conf rng token = some c →
      rsaDecryptByPrivateKey C E conf c = some token ∧
        ∀ broken, Broken c broken → broken ≠ c → rsaDecryptByPrivateKey C E conf broken = none := by
  constructor
  · rw [← not_iff_not, not_lt, ← hC.encrypt_iff pub rng _ hsize, ← ne_eq, Option.ne_none_iff_exists']
    constructor
    · rintro ⟨c, hc⟩
      obtain ⟨rs, hrs, -⟩ := (rsaEncryptByPublicKey_eq_some hpub).mp hc
      exact ⟨rs, hrs⟩
    · rintro ⟨rs, hrs⟩
      exact ⟨_, (rsaEncryptByPublicKey_eq_some hpub).mpr ⟨rs, hrs, rfl⟩⟩
  · intro c hc
    obtain ⟨rs, hrs, rfl⟩ := (rsaEncryptByPublicKey_eq_some hpub).mp hc
    refine ⟨?_, fun broken hbroken hne =>
      rsaDecryptByPrivateKey_of_foreign hC hE (.inr (foreign_of_broken hbroken hne))⟩
    have hdecrypt := hC.decrypt_encrypt pub priv rng _ rs hmatches hrs
    simp only [rsaDecryptByPrivateKey, hpriv, decodeOrEmpty_encode hE, hdecrypt, fromUtf8_utf8]

end Laws

/-! ## Keys of the library -/

/-- The crate for one pair of keys, whose DER forms are given. -/
def libraryCrate (K : Rsa.KeyPair) (privateDer publicDer : Bytes) :
    RsaCrate Rsa.PrivateKey Rsa.PublicKey Rsa.Rng where
  fromPkcs8Der bs := if bs = privateDer then .ok K.privateKey else .error "ASN.1 error".toList
  fromPublicKeyDer bs := if bs = publicDer then .ok K.publicKey else .error "ASN.1 error".toList
  decrypt key c := (Rsa.decrypt key c).elim (.error "decryption error".toList) .ok
  encrypt key rng msg := (Rsa.encrypt key rng msg).elim (.error "message too long".toList) .ok

theorem libraryCrate_fromPkcs8Der (K : Rsa.KeyPair) (privateDer publicDer : Bytes) :
    (libraryCrate K privateDer publicDer).fromPkcs8Der privateDer = .ok K.privateKey :=
  if_pos (t := Except.ok K.privateKey) (e := Except.error "ASN.1 error".toList) rfl

theorem libraryCrate_fromPublicKeyDer (K : Rsa.KeyPair) (privateDer publicDer : Bytes) :
    (libraryCrate K privateDer publicDer).fromPublicKeyDer publicDer = .ok K.publicKey :=
  if_pos (t := Except.ok K.publicKey) (e := Except.error "ASN.1 error".toList) rfl

theorem libraryCrate_laws (K : Rsa.KeyPair) {privateDer publicDer : Bytes} (hprivate : privateDer ≠ [])
    (hpublic : publicDer ≠ []) :
    (libraryCrate K privateDer publicDer).Laws
      (fun pub priv => ∃ K : Rsa.KeyPair, pub = K.publicKey ∧ priv = K.privateKey)
      (fun pub => Rsa.size pub.modulus) where
  encrypt_iff key rng msg _ := by
    show (∃ c, (Rsa.encrypt key rng msg).elim _ _ = Except.ok c) ↔ _
    unfold Rsa.encrypt
    by_cases hlength : msg.length + 11 ≤ Rsa.size key.modulus
    · rw [if_pos hlength]
      exact iff_of_true ⟨_, rfl⟩ hlength
    · rw [if_neg hlength]
      refine iff_of_false (fun h => ?_) hlength
      obtain ⟨c, hc⟩ := h
      cases hc
  decrypt_encrypt pub priv rng msg c hmatches hc := by
    obtain ⟨K, rfl, rfl⟩ := hmatches
    have henc : Rsa.encrypt K.publicKey rng msg = some c := by
      change (Rsa.encrypt K.publicKey rng msg).elim _ _ = Except.ok c at hc
      cases h : Rsa.encrypt K.publicKey rng msg with
      | none =>
        rw [h] at hc
        cases hc
      | some c' =>
        rw [h] at hc
        cases hc
        rfl
    show (Rsa.decrypt K.privateKey c).elim _ _ = _
    rw [K.decrypt_encrypt henc]
    rfl
  fromPkcs8Der_nil := ⟨_, if_neg hprivate.symm⟩
  fromPublicKeyDer_nil := ⟨_, if_neg hpublic.symm⟩
  decrypt_nil key := ⟨_, rfl⟩

/-- A small pair of keys, of 19 bytes. -/
def smallKeys : Rsa.KeyPair where
  p := mersenne 61
  q := mersenne 89
  e := 65537
  d := 740443132154395775117746638826656402702473
  prime_p := lucas_lehmer_sufficiency _ (by norm_num) (by norm_num)
  prime_q := lucas_lehmer_sufficiency _ (by norm_num) (by norm_num)
  ne := by decide
  inverse := by decide +kernel

/-- Its DER forms. -/
def smallPublicDer : Bytes :=
  [48, 46, 48, 13, 6, 9, 42, 134, 72, 134, 247, 13, 1, 1, 1, 5, 0, 3, 29, 0, 48, 26, 2, 19, 63, 255, 255,
    255, 255, 255, 255, 253, 255, 255, 255, 224, 0, 0, 0, 0, 0, 0, 1, 2, 3, 1, 0, 1]

def smallPrivateDer : Bytes :=
  [48, 129, 129, 2, 1, 0, 48, 13, 6, 9, 42, 134, 72, 134, 247, 13, 1, 1, 1, 5, 0, 4, 109, 48, 107, 2,
    1, 0, 2, 19, 63, 255, 255, 255, 255, 255, 255, 253, 255, 255, 255, 224, 0, 0, 0, 0, 0, 0, 1, 2, 3, 1,
    0, 1, 2, 18, 8, 127, 247, 128, 8, 127, 247, 127, 128, 128, 127, 119, 0, 136, 255, 119, 0, 137, 2, 8,
    31, 255, 255, 255, 255, 255, 255, 255, 2, 12, 1, 255, 255, 255, 255, 255, 255, 255, 255, 255, 255,
    255, 2, 8, 23, 119, 136, 136, 119, 119, 136, 135, 2, 12, 1, 127, 128, 128, 127, 127, 128, 128, 127,
    127, 128, 127, 2, 8, 9, 74, 82, 148, 148, 165, 41, 73]

/-- A configuration with these keys. -/
def smallKeysConf : WebServerConfig :=
  { AppConfig.initial.webserverConf with
    rsaPasswordPublicKey := libraryEngines.standard.encode smallPublicDer
    rsaPasswordPrivateKey := libraryEngines.standard.encode smallPrivateDer }

def ones : Rsa.Rng where
  fill n := List.replicate n 1
  length_fill n := List.length_replicate
  fill_ne_zero n h := absurd (List.eq_of_mem_replicate h) (by decide)

theorem smallKeys_laws : (libraryCrate smallKeys smallPrivateDer smallPublicDer).Laws
    (fun pub priv => ∃ K : Rsa.KeyPair, pub = K.publicKey ∧ priv = K.privateKey)
    (fun pub => Rsa.size pub.modulus) := libraryCrate_laws smallKeys (by decide) (by decide)

theorem size_smallKeys : Rsa.size smallKeys.publicKey.modulus = 19 := by
  have hlog : Nat.log 256 (mersenne 61 * mersenne 89) = 18 :=
    (Nat.log_eq_iff (by decide)).mpr ⟨by decide +kernel, by decide +kernel⟩
  exact congrArg (· + 1) hlog

theorem rsa_roundTrip_secret : ∃ c,
    rsaEncryptByPublicKey (libraryCrate smallKeys smallPrivateDer smallPublicDer) libraryEngines.standard
      smallKeysConf ones "secret".toList = some c ∧
    rsaDecryptByPrivateKey (libraryCrate smallKeys smallPrivateDer smallPublicDer)
      libraryEngines.standard smallKeysConf c = some "secret".toList := by
  have hE := libraryEngines_implement.standard
  have hpub : (libraryCrate smallKeys smallPrivateDer smallPublicDer).fromPublicKeyDer
      (decodeOrEmpty libraryEngines.standard smallKeysConf.rsaPasswordPublicKey) =
        .ok smallKeys.publicKey := by
    have hder : decodeOrEmpty libraryEngines.standard smallKeysConf.rsaPasswordPublicKey =
        smallPublicDer := decodeOrEmpty_encode hE smallPublicDer
    rw [hder]
    exact libraryCrate_fromPublicKeyDer smallKeys _ _
  have hpriv : (libraryCrate smallKeys smallPrivateDer smallPublicDer).fromPkcs8Der
      (decodeOrEmpty libraryEngines.standard smallKeysConf.rsaPasswordPrivateKey) =
        .ok smallKeys.privateKey := by
    have hder : decodeOrEmpty libraryEngines.standard smallKeysConf.rsaPasswordPrivateKey =
        smallPrivateDer := decodeOrEmpty_encode hE smallPrivateDer
    rw [hder]
    exact libraryCrate_fromPkcs8Der smallKeys _ _
  obtain ⟨hnone, hdecrypt⟩ := rsa_roundTrip smallKeys_laws hE hpub hpriv ⟨smallKeys, rfl, rfl⟩
    (by rw [size_smallKeys]; decide) ones "secret".toList
  obtain ⟨c, hc⟩ : ∃ c, rsaEncryptByPublicKey (libraryCrate smallKeys smallPrivateDer smallPublicDer)
      libraryEngines.standard smallKeysConf ones "secret".toList = some c := by
    rw [← Option.ne_none_iff_exists', ne_eq, hnone, size_smallKeys]
    decide
  exact ⟨c, hc, (hdecrypt c hc).1⟩

end ChimesUtils
