import ChimesUtils.Lib.Positional

/-!
# Base64

Groups of three octets are written as four letters of an alphabet of 64. A shorter last group has two or
three letters, which padding completes to four.

* `encode`, `decode`: writing, and reading with the padding or without it;
* `octets_sextets`: the sextets of octets are read back;
* `decode_encode`: reading what was written.
-/

namespace ChimesUtils.Lib.Base64

variable {α : Type}

/-- The octets in groups of six bits, the last of which is filled with zeros. -/
def sextets : List UInt8 → List ℕ
  | [] => []
  | [a] => [a.toNat / 4, a.toNat % 4 * 16]
  | [a, b] => [a.toNat / 4, a.toNat % 4 * 16 + b.toNat / 16, b.toNat % 16 * 4]
  | a :: b :: c :: rest =>
    a.toNat / 4 :: (a.toNat % 4 * 16 + b.toNat / 16) :: (b.toNat % 16 * 4 + c.toNat / 64) ::
      (c.toNat % 64) :: sextets rest

/-- The octets of groups of six bits, if the bits that fill the last group are zeros. -/
def octets : List ℕ → Option (List UInt8)
  | [] => some []
  | [_] => none
  | [p, q] => if q % 16 = 0 then some [UInt8.ofNat (p * 4 + q / 16)] else none
  | [p, q, r] =>
    if r % 4 = 0 then some [UInt8.ofNat (p * 4 + q / 16), UInt8.ofNat (q % 16 * 16 + r / 4)] else none
  | p :: q :: r :: s :: rest =>
    (octets rest).map fun bytes =>
      UInt8.ofNat (p * 4 + q / 16) :: UInt8.ofNat (q % 16 * 16 + r / 4) ::
        UInt8.ofNat (r % 4 * 64 + s) :: bytes

/-- The padding after a number of letters. -/
def padding (pad : α) (n : ℕ) : List α := List.replicate ((4 - n % 4) % 4) pad

section

variable (alphabet : Vector α 64) (pad : α)

/-- The letters of octets. -/
def letters (x : List UInt8) : List α := (sextets x).map (Positional.letter (b := 62) alphabet)

/-- The encoding, with the padding or without it. -/
def encode (padded : Bool) (x : List UInt8) : List α :=
  letters alphabet x ++ if padded then padding pad (letters alphabet x).length else []

/-- The octets that a text encodes. -/
def decode [DecidableEq α] (padded : Bool) (text : List α) : Option (List UInt8) :=
  let body := if padded then text.rdropWhile (· = pad) else text
  if text = body ++ (if padded then padding pad body.length else []) ∧ ∀ c ∈ body, c ∈ alphabet.toList
  then octets (body.map alphabet.toList.idxOf) else none

end

/-! ## Groups of bits -/

theorem sextets_lt (x : List UInt8) : ∀ d ∈ sextets x, d < 64 := by
  induction x using sextets.induct with
  | case1 => exact List.forall_mem_nil _
  | case2 a =>
    have ha := a.toNat_lt
    simp only [sextets, List.forall_mem_cons]
    exact ⟨by omega, by omega, List.forall_mem_nil _⟩
  | case3 a b =>
    have ha := a.toNat_lt
    have hb := b.toNat_lt
    simp only [sextets, List.forall_mem_cons]
    exact ⟨by omega, by omega, by omega, List.forall_mem_nil _⟩
  | case4 a b c rest ih =>
    have ha := a.toNat_lt
    have hb := b.toNat_lt
    have hc := c.toNat_lt
    simp only [sextets, List.forall_mem_cons]
    exact ⟨by omega, by omega, by omega, by omega, ih⟩

theorem ofNat_eq {a : UInt8} {n : ℕ} (h : n = a.toNat) : UInt8.ofNat n = a := by
  rw [h, UInt8.ofNat_toNat]

/-- **Groups.** The sextets of octets are read back. -/
theorem octets_sextets (x : List UInt8) : octets (sextets x) = some x := by
  induction x using sextets.induct with
  | case1 => rfl
  | case2 a =>
    have ha := a.toNat_lt
    rw [sextets, octets, if_pos (by omega), ofNat_eq (a := a) (by omega)]
  | case3 a b =>
    have ha := a.toNat_lt
    have hb := b.toNat_lt
    rw [sextets, octets, if_pos (by omega), ofNat_eq (a := a) (by omega), ofNat_eq (a := b) (by omega)]
  | case4 a b c rest ih =>
    have ha := a.toNat_lt
    have hb := b.toNat_lt
    have hc := c.toNat_lt
    rw [sextets, octets, ih, Option.map_some, ofNat_eq (a := a) (by omega),
      ofNat_eq (a := b) (by omega), ofNat_eq (a := c) (by omega)]

/-! ## Letters -/

section Letters

variable (alphabet : Vector α 64)

theorem mem_of_mem_letters {x : List UInt8} {c : α} (hc : c ∈ letters alphabet x) :
    c ∈ alphabet.toList := by
  obtain ⟨d, -, rfl⟩ := List.mem_map.mp hc
  exact Positional.letter_mem (b := 62) alphabet d

theorem map_idxOf_letters [DecidableEq α] (h : alphabet.toList.Nodup) (x : List UInt8) :
    (letters alphabet x).map alphabet.toList.idxOf = sextets x := by
  have hsame : ∀ d ∈ sextets x,
      (alphabet.toList.idxOf ∘ Positional.letter (b := 62) alphabet) d = id d :=
    fun d hd => Positional.idxOf_letter (b := 62) alphabet h (sextets_lt x d hd)
  unfold letters
  rw [List.map_map, List.map_congr_left hsame, List.map_id]

variable {alphabet} {pad : α}

theorem pad_notMem_letters (hpad : pad ∉ alphabet.toList) (x : List UInt8) :
    pad ∉ letters alphabet x := fun hmem => hpad (mem_of_mem_letters alphabet hmem)

theorem encode_false (x : List UInt8) : encode alphabet pad false x = letters alphabet x := by
  rw [encode, if_neg Bool.false_ne_true, List.append_nil]

theorem mem_of_mem_encode {padded : Bool} {x : List UInt8} {c : α}
    (hc : c ∈ encode alphabet pad padded x) : c ∈ alphabet.toList ∨ c = pad := by
  cases padded with
  | false =>
    rw [encode_false] at hc
    exact .inl (mem_of_mem_letters alphabet hc)
  | true =>
    rw [encode, if_pos rfl] at hc
    rcases List.mem_append.mp hc with hc | hc
    · exact .inl (mem_of_mem_letters alphabet hc)
    · exact .inr (List.eq_of_mem_replicate hc)

theorem encode_true_eq {x : List UInt8} (h : pad ∉ encode alphabet pad true x) :
    encode alphabet pad true x = encode alphabet pad false x := by
  have hnone : padding pad (letters alphabet x).length = [] := by
    rw [encode, if_pos rfl, List.mem_append, not_or] at h
    rw [List.eq_nil_iff_forall_not_mem]
    intro c hc
    rw [List.eq_of_mem_replicate hc] at hc
    exact h.2 hc
  rw [encode, if_pos rfl, hnone, List.append_nil, encode_false]

/-- **Padding.** Without it, the letters are left. -/
theorem rdropWhile_encode [DecidableEq α] (hpad : pad ∉ alphabet.toList) (padded : Bool)
    (x : List UInt8) :
    (encode alphabet pad padded x).rdropWhile (· = pad) = letters alphabet x := by
  have hletters : (letters alphabet x).rdropWhile (· = pad) = letters alphabet x := by
    rw [List.rdropWhile_eq_self_iff]
    intro hne heq
    rw [decide_eq_true_eq] at heq
    exact pad_notMem_letters hpad x (heq ▸ List.getLast_mem hne)
  cases padded with
  | false => rw [encode_false, hletters]
  | true =>
    rw [encode, if_pos rfl]
    unfold padding
    rw [List.rdropWhile, List.reverse_append, List.reverse_replicate,
      List.dropWhile_append_of_pos fun c hc => by simp [List.eq_of_mem_replicate hc]]
    exact hletters

/-- **Reading what was written.** -/
theorem decode_encode [DecidableEq α] (h : alphabet.toList.Nodup) (hpad : pad ∉ alphabet.toList)
    (padded : Bool) (x : List UInt8) :
    decode alphabet pad padded (encode alphabet pad padded x) = some x := by
  have hbody : (if padded then (encode alphabet pad padded x).rdropWhile (· = pad)
      else encode alphabet pad padded x) = letters alphabet x := by
    cases padded with
    | false => rw [if_neg Bool.false_ne_true, encode_false]
    | true => rw [if_pos rfl, rdropWhile_encode hpad]
  unfold decode
  simp only [hbody]
  rw [if_pos ⟨rfl, fun c hc => mem_of_mem_letters alphabet hc⟩, map_idxOf_letters alphabet h,
    octets_sextets]

theorem mem_of_decode_eq_some [DecidableEq α] {padded : Bool} {text : List α} {x : List UInt8}
    (h : decode alphabet pad padded text = some x) {c : α} (hc : c ∈ text) :
    c ∈ alphabet.toList ∨ padded = true ∧ c = pad := by
  simp only [decode] at h
  generalize (if padded = true then text.rdropWhile (· = pad) else text) = body at h
  obtain ⟨htext, hmem⟩ : text = body ++ (if padded then padding pad body.length else []) ∧
      ∀ c ∈ body, c ∈ alphabet.toList := by
    by_contra hne
    rw [if_neg hne] at h
    cases h
  rw [htext] at hc
  rcases List.mem_append.mp hc with hc | hc
  · exact .inl (hmem c hc)
  · cases padded with
    | false =>
      rw [if_neg Bool.false_ne_true] at hc
      cases hc
    | true => exact .inr ⟨rfl, List.eq_of_mem_replicate hc⟩

end Letters

end ChimesUtils.Lib.Base64
