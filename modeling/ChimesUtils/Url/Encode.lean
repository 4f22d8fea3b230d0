import ChimesUtils.Url.Query

/-!
# Encoding of query strings

`get_url_encode2` escapes every byte that is not unreserved; `get_url_encode` escapes the bytes of
`FRAGMENT` and those outside ASCII, and keeps `%` and `&`.

* `parse_getUrlEncode2`: `parse_query` reads back what `get_url_encode2` has encoded;
* `getUrlEncode_iff`: which strings decoding and `parse_query` read back from `get_url_encode`, and
  which strings it does not tell apart.
-/

namespace ChimesUtils

open Lib

/-! ## The functions -/

section Functions

variable (C : PercentCrates)

/-- `FRAGMENT`. -/
def fragment : AsciiSet :=
  ((((((C.controls.add 32).add 34).add 60).add 62).add 96).add 43).add 61

/-- `get_url_encode`. -/
def getUrlEncode (c : Text) : Text := C.utf8PercentEncode c (fragment C)

/-- `get_url_encode2`. -/
def getUrlEncode2 (c : Text) : Text := C.encodeBinary (utf8 c)

end Functions

/-- The segments `key=value`, joined with `&`. -/
def joinQuery (es : List (Text × Text)) : Text :=
  List.intercalate ['&'] (es.map fun e => e.1 ++ '=' :: e.2)

/-! ## Encodings as texts -/

section Encodings

variable {keep : UInt8 → Bool} {bs : Bytes} {c : Char} {s : Text}

theorem forall_byte {P : UInt8 → Prop} (h : ∀ n < 256, P (UInt8.ofNat n)) (b : UInt8) : P b := by
  rw [← UInt8.ofNat_toNat (x := b)]
  exact h b.toNat b.toNat_lt

theorem toNat_ofNat_char {b : UInt8} (hb : b.toNat < 128) : (Char.ofNat b.toNat).toNat = b.toNat := by
  have hall : ∀ n < 128, (Char.ofNat n).toNat = n := by decide +kernel
  exact hall _ hb

theorem utf8_asciiText (h : ∀ b ∈ bs, b.toNat < 128) : utf8 (asciiText bs) = bs := by
  induction bs with
  | nil => rfl
  | cons b bs ih =>
    rw [List.forall_mem_cons] at h
    have hb := toNat_ofNat_char h.1
    have hchar : String.utf8EncodeChar (Char.ofNat b.toNat) = [b] := by
      rw [utf8EncodeChar_of_ascii (by omega), hb, UInt8.ofNat_toNat]
    show utf8 (Char.ofNat b.toNat :: asciiText bs) = _
    rw [utf8_cons, hchar, ih h.2]
    rfl

theorem toNat_lt_of_mem_encode (hkeep : ∀ b, keep b = true → b.toNat < 128) :
    ∀ b ∈ Percent.encode keep bs, b.toNat < 128 := by
  intro b hb
  have hdigits : ∀ n < 16, (Percent.hexDigit n).toNat < 128 := by decide
  rcases Percent.mem_encode hb with ⟨-, hb⟩ | rfl | ⟨n, hn, rfl⟩
  · exact hkeep b hb
  · decide
  · exact hdigits n hn

theorem utf8_asciiText_encode (hkeep : ∀ b, keep b = true → b.toNat < 128) (bs : Bytes) :
    utf8 (asciiText (Percent.encode keep bs)) = Percent.encode keep bs :=
  utf8_asciiText (toNat_lt_of_mem_encode hkeep)

theorem mem_utf8_iff (hc : c.toNat < 128) : UInt8.ofNat c.toNat ∈ utf8 s ↔ c ∈ s := by
  have hbyte : (UInt8.ofNat c.toNat).toNat = c.toNat := by
    rw [UInt8.toNat_ofNat', Nat.mod_eq_of_lt (by omega)]
  constructor
  · intro h
    obtain ⟨as, bs, hsplit, -⟩ := List.eq_append_cons_of_mem h
    obtain ⟨t, u, rfl, -, -⟩ := exists_of_utf8_eq_append (by omega) hsplit
    rw [hbyte, Char.ofNat_toNat]
    exact List.mem_append_right _ List.mem_cons_self
  · intro h
    refine List.mem_flatMap.mpr ⟨c, h, ?_⟩
    rw [utf8EncodeChar_of_ascii hc]
    exact List.mem_cons_self

/-- A separator is no part of an escape. -/
def Separates (c : Char) : Prop := c.toNat < 128 ∧ UInt8.ofNat c.toNat ≠ Percent.sign ∧
  Percent.hexValue (UInt8.ofNat c.toNat) = none

instance (c : Char) : Decidable (Separates c) := inferInstanceAs
  (Decidable (c.toNat < 128 ∧ UInt8.ofNat c.toNat ≠ Percent.sign ∧
    Percent.hexValue (UInt8.ofNat c.toNat) = none))

/-- **Separators in an encoding** are those of the text, if they are kept. -/
theorem mem_asciiText_encode_iff (hkeep : ∀ b, keep b = true → b.toNat < 128) (hc : Separates c) :
    c ∈ asciiText (Percent.encode keep (utf8 s)) ↔ c ∈ s ∧ keep (UInt8.ofNat c.toNat) = true := by
  rw [← mem_utf8_iff hc.1, utf8_asciiText_encode hkeep]
  constructor
  · intro h
    rcases Percent.mem_encode h with ⟨hmem, hb⟩ | hsign | ⟨n, hn, hdigit⟩
    · exact ⟨(mem_utf8_iff hc.1).mp hmem, hb⟩
    · exact absurd hsign hc.2.1
    · have hnone := hc.2.2
      rw [hdigit, Percent.hexValue_hexDigit hn] at hnone
      cases hnone
  · rintro ⟨hmem, hb⟩
    refine List.mem_flatMap.mpr ⟨_, (mem_utf8_iff hc.1).mpr hmem, ?_⟩
    rw [if_pos hb]
    exact List.mem_cons_self

end Encodings

/-! ## What is parsed -/

section Joined

variable {C : PercentCrates} {ps : List (Text × Text)} {enc : Text → Text}

theorem joinQuery_ne_nil {es : List (Text × Text)} (hne : es ≠ []) : joinQuery es ≠ [] := by
  obtain ⟨e, es, rfl⟩ := List.exists_cons_of_ne_nil hne
  cases es with
  | nil => simp [joinQuery]
  | cons e' es => simp [joinQuery, List.intercalate_cons_cons]

theorem notMem_of_all {f : Char → Bool} {k : Text} (hf : f '&' = false ∧ f '=' = false)
    (hk : k.all f = true) : '&' ∉ k ∧ '=' ∉ k := by
  rw [List.all_eq_true] at hk
  constructor
  · intro h
    exact Bool.false_ne_true (hf.1.symm.trans (hk _ h))
  · intro h
    exact Bool.false_ne_true (hf.2.symm.trans (hk _ h))

theorem splitOn_joinQuery (hne : ps ≠ []) (hkey : ∀ p ∈ ps, '&' ∉ p.1 ∧ '=' ∉ p.1)
    (hvalue : ∀ p ∈ ps, '&' ∉ enc p.2) :
    (joinQuery (ps.map fun p => (p.1, enc p.2))).splitOn '&' =
      ps.map fun p => p.1 ++ '=' :: enc p.2 := by
  unfold joinQuery
  rw [List.map_map]
  refine List.splitOn_intercalate '&' (fun s hs => ?_) (by simpa using hne)
  obtain ⟨p, hp, rfl⟩ := List.mem_map.mp hs
  simp [hkey p hp, hvalue p hp]

theorem segmentPairs_joinQuery (hne : ps ≠ []) (hkey : ∀ p ∈ ps, '&' ∉ p.1 ∧ '=' ∉ p.1)
    (hvalue : ∀ p ∈ ps, '&' ∉ enc p.2) :
    segmentPairs (joinQuery (ps.map fun p => (p.1, enc p.2))) = ps.map fun p => (p.1, enc p.2) := by
  rw [segmentPairs, splitOn_joinQuery hne hkey hvalue, List.map_map]
  refine List.map_congr_left fun p hp => ?_
  show (before '=' (p.1 ++ '=' :: enc p.2), after '=' (p.1 ++ '=' :: enc p.2)) = _
  rw [before_append (hkey p hp).2, after_append (hkey p hp).2]

/-- **Joined segments.** `parse_query` returns the decoded values. -/
theorem parseQuery_joinQuery (hne : ps ≠ []) (hkey : ∀ p ∈ ps, '&' ∉ p.1 ∧ '=' ∉ p.1)
    (hvalue : ∀ p ∈ ps, '&' ∉ enc p.2 ∧ '=' ∉ enc p.2)
    (hdecode : ∀ p ∈ ps, (C.decodeText (enc p.2)).isSome = true) :
    ∃ m, parseQuery C (joinQuery (ps.map fun p => (p.1, enc p.2))) = some m ∧
      ∀ k, m.lookup k = (lastOf ps k).bind fun v => C.decodeText (enc v) := by
  have hsegments := splitOn_joinQuery hne hkey fun p hp => (hvalue p hp).1
  have hpairs := segmentPairs_joinQuery hne hkey fun p hp => (hvalue p hp).1
  obtain ⟨m, hm, hlookup⟩ := parseQuery_lookup (C := C)
    (q := joinQuery (ps.map fun p => (p.1, enc p.2)))
    (fun s hs => by
      rw [hsegments] at hs
      obtain ⟨p, -, rfl⟩ := List.mem_map.mp hs
      exact List.mem_append_right _ List.mem_cons_self)
    (fun s hs => by
      rw [hsegments] at hs
      obtain ⟨p, hp, rfl⟩ := List.mem_map.mp hs
      rw [valuePart, after_append (hkey p hp).2, before_of_notMem (hvalue p hp).2]
      exact hdecode p hp)
  refine ⟨m, hm, fun k => ?_⟩
  rw [hlookup, hpairs, lastOf_map]
  cases hk : lastOf ps k with
  | none => rfl
  | some v => exact congrArg C.decodeText (before_of_notMem (hvalue _ (mem_of_lastOf hk)).2)

end Joined

/-! ## `get_url_encode2` -/

/-- Letters, digits, `-`, `_`, `.` and `~`. -/
def keyChar (c : Char) : Bool := c.isAlphanum || c == '-' || c == '_' || c == '.' || c == '~'

theorem toNat_lt_of_unreserved {b : UInt8} : unreserved b = true → b.toNat < 128 :=
  forall_byte (P := fun b => unreserved b = true → b.toNat < 128) (by decide +kernel) b

section Encode2

variable {C : PercentCrates}

theorem getUrlEncode2_eq (hC : C.Laws) (v : Text) :
    getUrlEncode2 C v = asciiText (Percent.encode unreserved (utf8 v)) := hC.encodeBinary _

theorem notMem_getUrlEncode2 (hC : C.Laws) (v : Text) :
    '&' ∉ getUrlEncode2 C v ∧ '=' ∉ getUrlEncode2 C v := by
  have hseparator : ∀ c : Char, Separates c → unreserved (UInt8.ofNat c.toNat) = false →
      c ∉ getUrlEncode2 C v := by
    intro c hc hkeep hmem
    rw [getUrlEncode2_eq hC, mem_asciiText_encode_iff (fun _ => toNat_lt_of_unreserved) hc, hkeep]
      at hmem
    exact Bool.false_ne_true hmem.2
  exact ⟨hseparator '&' (by decide) (by decide), hseparator '=' (by decide) (by decide)⟩

theorem decodeText_getUrlEncode2 (hC : C.Laws) (v : Text) :
    C.decodeText (getUrlEncode2 C v) = some v := by
  rw [PercentCrates.decodeText, hC.percentDecode_eq, getUrlEncode2_eq hC,
    utf8_asciiText_encode fun _ => toNat_lt_of_unreserved,
    Percent.unescape_encode (by decide) (Percent.reads_hexPair _), fromUtf8_utf8]

/-- **Round trip.** For every non-empty list of pairs of a key of letters, digits, `-`, `_`, `.` and `~`,
and any value: `parse_query` of the segments `key=get_url_encode2(value)` is the map of the pairs. -/
theorem parse_getUrlEncode2 (hC : C.Laws) {ps : List (Text × Text)} (hne : ps ≠ [])
    (hkeys : ∀ p ∈ ps, p.1 ≠ [] ∧ p.1.all keyChar = true) :
    ∃ m, parseQuery C (joinQuery (ps.map fun p => (p.1, getUrlEncode2 C p.2))) = some m ∧
      ∀ k, m.lookup k = lastOf ps k := by
  obtain ⟨m, hm, hlookup⟩ := parseQuery_joinQuery (C := C) hne
    (fun p hp => notMem_of_all (by decide) (hkeys p hp).2)
    (fun p _ => notMem_getUrlEncode2 hC p.2)
    (fun p _ => by rw [decodeText_getUrlEncode2 hC]; rfl)
  refine ⟨m, hm, fun k => ?_⟩
  rw [hlookup]
  cases lastOf ps k with
  | none => rfl
  | some v => exact decodeText_getUrlEncode2 hC v

end Encode2

/-- Values with separators, escapes and a character outside ASCII. -/
def mixedPairs : List (Text × Text) :=
  [("q".toList, "a&b=%41".toList), ("r_1".toList, "ü +".toList), ("q".toList, [])]

theorem parse_mixedPairs :
    joinQuery (mixedPairs.map fun p => (p.1, getUrlEncode2 .standard p.2)) =
      "q=a%26b%3D%2541&r_1=%C3%BC%20%2B&q=".toList ∧
    ∃ m, parseQuery .standard
        (joinQuery (mixedPairs.map fun p => (p.1, getUrlEncode2 .standard p.2))) = some m ∧
      ∀ k, m.lookup k = lastOf mixedPairs k :=
  ⟨by decide +kernel, parse_getUrlEncode2 PercentCrates.standard_laws (by decide) (by decide)⟩

/-! ## `get_url_encode` -/

/-- The bytes that `get_url_encode` keeps: the printing characters of ASCII that are not in `FRAGMENT`. -/
def fragmentKeeps (b : UInt8) : Bool :=
  decide (32 < b.toNat) && decide (b.toNat < 127) && !([34, 43, 60, 61, 62, 96].contains b)

/-- The escapes that `get_url_encode` writes: upper-case ones, of bytes that it does not keep. -/
def fragmentPair (h l : UInt8) : Option UInt8 :=
  (Percent.hexPair h l).filter fun c =>
    !fragmentKeeps c && Percent.escape c == [Percent.sign, h, l]

/-- No `%` is followed by two hexadecimal digits. -/
def NoEscape (v : Text) : Prop := Percent.EscapeFree Percent.hexPair (utf8 v)

/-- Every `%XX` that `get_url_encode` could have written is replaced by its byte. -/
def withoutEscapes (v : Text) : Bytes := Percent.unescape fragmentPair (utf8 v)

/-- `parse_query` reads the values of the pairs back from `get_url_encode`. -/
def RoundTrips (C : PercentCrates) (ps : List (Text × Text)) : Prop :=
  ∃ m, parseQuery C (joinQuery (ps.map fun p => (p.1, getUrlEncode C p.2))) = some m ∧
    ∀ k, m.lookup k = lastOf ps k

theorem toNat_lt_of_fragmentKeeps {b : UInt8} (h : fragmentKeeps b = true) : b.toNat < 128 := by
  simp only [fragmentKeeps, Bool.and_eq_true, decide_eq_true_eq] at h
  omega

theorem keepsEscapes_of_hex {esc : UInt8 → UInt8 → Option UInt8}
    (h : ∀ x y c, esc x y = some c → Percent.hexPair x y = some c) :
    Percent.KeepsEscapes fragmentKeeps esc := by
  have hdigit : ∀ b, (Percent.hexValue b).isSome = true → fragmentKeeps b = true :=
    forall_byte (by decide +kernel)
  have hsign : Percent.hexValue Percent.sign = none := by decide
  refine ⟨by decide, fun x y hsome => ?_, fun y => ?_, fun x => ?_⟩
  · obtain ⟨c, hc⟩ := Option.isSome_iff_exists.mp hsome
    have hpair : (Percent.hexPair x y).isSome = true := by
      rw [h x y c hc]
      rfl
    obtain ⟨hx, hy⟩ := Percent.hexPair_isSome_iff.mp hpair
    exact ⟨hdigit x hx, hdigit y hy⟩
  · refine Option.eq_none_iff_forall_ne_some.mpr fun c hc => ?_
    have hpair := h _ _ c hc
    rw [Percent.hexPair_of_left hsign] at hpair
    cases hpair
  · refine Option.eq_none_iff_forall_ne_some.mpr fun c hc => ?_
    have hpair := h _ _ c hc
    rw [Percent.hexPair_of_right hsign] at hpair
    cases hpair

theorem keepsEscapes_hexPair : Percent.KeepsEscapes fragmentKeeps Percent.hexPair :=
  keepsEscapes_of_hex fun _ _ _ h => h

theorem fragmentPair_eq_some_iff {x y c : UInt8} : fragmentPair x y = some c ↔
    Percent.hexPair x y = some c ∧ fragmentKeeps c = false ∧
      Percent.escape c = [Percent.sign, x, y] := by
  rw [fragmentPair, Option.filter_eq_some_iff]
  simp only [Bool.and_eq_true, Bool.not_eq_true', beq_iff_eq]

theorem keepsEscapes_fragmentPair : Percent.KeepsEscapes fragmentKeeps fragmentPair :=
  keepsEscapes_of_hex fun _ _ _ h => (fragmentPair_eq_some_iff.mp h).1

theorem reads_fragmentPair : Percent.Reads fragmentKeeps fragmentPair := fun b hb =>
  fragmentPair_eq_some_iff.mpr ⟨Percent.hexPair_hexDigit b, hb, rfl⟩

theorem writes_fragmentPair : Percent.Writes fragmentKeeps fragmentPair := fun _ _ _ h =>
  (fragmentPair_eq_some_iff.mp h).2

section Encode

variable {C : PercentCrates}

theorem getUrlEncode_eq (hC : C.Laws) (c : Text) :
    getUrlEncode C c = asciiText (Percent.encode fragmentKeeps (utf8 c)) := by
  have hstandard : ∀ b : UInt8,
      (decide (b.toNat < 128) && !fragment .standard b) = fragmentKeeps b :=
    forall_byte (by decide +kernel)
  have hkeep : (fun b : UInt8 => decide (b.toNat < 128) && !fragment C b) = fragmentKeeps := by
    funext b
    have hset : fragment C b = fragment .standard b := by
      simp only [fragment, AsciiSet.add, hC.controls, PercentCrates.standard]
    rw [hset, hstandard b]
  rw [getUrlEncode, hC.utf8PercentEncode, hkeep]

/-- **Decoding** an encoded text is decoding the text itself. -/
theorem decodeText_getUrlEncode (hC : C.Laws) (c : Text) :
    C.decodeText (getUrlEncode C c) = C.decodeText c := by
  rw [PercentCrates.decodeText, PercentCrates.decodeText, hC.percentDecode_eq, hC.percentDecode_eq,
    getUrlEncode_eq hC, utf8_asciiText_encode fun _ => toNat_lt_of_fragmentKeeps,
    Percent.unescape_encode_of_keep keepsEscapes_hexPair (Percent.reads_hexPair _)]

theorem decodeText_eq_self_iff (hC : C.Laws) (c : Text) :
    C.decodeText c = some c ↔ NoEscape c := by
  rw [PercentCrates.decodeText, hC.percentDecode_eq, NoEscape, ← Percent.unescape_eq_self_iff]
  constructor
  · exact fun h => (utf8_of_fromUtf8 h).symm
  · intro h
    rw [h, fromUtf8_utf8]

theorem mem_getUrlEncode_iff (hC : C.Laws) (v : Text) :
    ('&' ∈ getUrlEncode C v ↔ '&' ∈ v) ∧ '=' ∉ getUrlEncode C v := by
  rw [getUrlEncode_eq hC]
  constructor
  · rw [mem_asciiText_encode_iff (fun _ => toNat_lt_of_fragmentKeeps) (by decide)]
    exact and_iff_left (by decide)
  · rw [mem_asciiText_encode_iff (fun _ => toNat_lt_of_fragmentKeeps) (by decide)]
    exact fun h => absurd h.2 (by decide)

theorem getUrlEncode_eq_iff (hC : C.Laws) (a b : Text) :
    getUrlEncode C a = getUrlEncode C b ↔ withoutEscapes a = withoutEscapes b := by
  rw [withoutEscapes, withoutEscapes, ← Percent.encode_eq_encode_iff keepsEscapes_fragmentPair
    reads_fragmentPair writes_fragmentPair, getUrlEncode_eq hC, getUrlEncode_eq hC]
  constructor
  · intro h
    have hbytes := congrArg utf8 h
    rwa [utf8_asciiText_encode fun _ => toNat_lt_of_fragmentKeeps,
      utf8_asciiText_encode fun _ => toNat_lt_of_fragmentKeeps] at hbytes
  · exact fun h => congrArg asciiText h

/-! ### Pairs -/

/-- No value has a separator, every value decodes to UTF-8, and the values that count have no escape. -/
def Readable (C : PercentCrates) (ps : List (Text × Text)) : Prop :=
  (∀ p ∈ ps, '&' ∉ p.2 ∧ ∃ t, utf8 t = C.percentDecode (utf8 p.2)) ∧
    ∀ k v, lastOf ps k = some v → NoEscape v

variable {ps : List (Text × Text)}

theorem not_wellFormed_of_separator (hC : C.Laws) {p : Text × Text} (hp : p ∈ ps) (hv : '&' ∈ p.2) :
    ∃ s ∈ (joinQuery (ps.map fun p => (p.1, getUrlEncode C p.2))).splitOn '&', ¬ WellFormed C s := by
  obtain ⟨hmem, hsign⟩ := mem_getUrlEncode_iff hC p.2
  obtain ⟨a, b, hsplit⟩ := List.append_of_mem (hmem.mpr hv)
  obtain ⟨s, hs⟩ := List.exists_mem_of_ne_nil _ (List.splitOn_ne_nil '&' b)
  refine ⟨s, ?_, fun hwell => hsign ?_⟩
  · rw [joinQuery, splitOn_intercalate_eq_flatMap
      (by simpa using List.ne_nil_of_mem hp), List.mem_flatMap]
    refine ⟨p.1 ++ '=' :: getUrlEncode C p.2, ?_, ?_⟩
    · rw [List.map_map]
      exact List.mem_map.mpr ⟨p, hp, rfl⟩
    · have hsegment : p.1 ++ '=' :: getUrlEncode C p.2 = (p.1 ++ '=' :: a) ++ '&' :: b := by
        rw [hsplit, List.append_assoc, List.cons_append]
      rw [hsegment, List.splitOn_append_cons_self]
      exact List.mem_append_right _ hs
  · rw [hsplit]
    exact List.mem_append_right _ (List.mem_cons_of_mem _ (subset_of_mem_splitOn hs hwell.1))

theorem plain_of_returns (hC : C.Laws) (hkeys : ∀ p ∈ ps, p.1.all Char.isAlphanum = true)
    (h : (parseQuery C (joinQuery (ps.map fun p => (p.1, getUrlEncode C p.2)))).isSome = true) :
    ∀ p ∈ ps, '&' ∉ p.2 ∧ (C.decodeText p.2).isSome = true := by
  intro p hp
  have hne : ps ≠ [] := List.ne_nil_of_mem hp
  have hwell := (isSome_parseQuery_iff (joinQuery_ne_nil (by simpa using hne))).mp h
  have hplain : ∀ p ∈ ps, '&' ∉ p.2 := by
    intro p hp hv
    obtain ⟨s, hs, hnot⟩ := not_wellFormed_of_separator hC hp hv
    exact hnot (hwell s hs)
  have hkey : ∀ p ∈ ps, '&' ∉ p.1 ∧ '=' ∉ p.1 := fun p hp => notMem_of_all (by decide) (hkeys p hp)
  refine ⟨hplain p hp, ?_⟩
  rw [splitOn_joinQuery hne hkey fun p hp h => hplain p hp ((mem_getUrlEncode_iff hC p.2).1.mp h)]
    at hwell
  obtain ⟨-, hvalid⟩ := hwell _ (List.mem_map_of_mem hp)
  rw [valuePart, after_append (hkey p hp).2, before_of_notMem (mem_getUrlEncode_iff hC p.2).2] at hvalid
  rw [← decodeText_getUrlEncode hC]
  exact isSome_fromUtf8_iff.mpr hvalid

theorem parseQuery_of_plain (hC : C.Laws) (hkeys : ∀ p ∈ ps, p.1.all Char.isAlphanum = true)
    (hplain : ∀ p ∈ ps, '&' ∉ p.2 ∧ (C.decodeText p.2).isSome = true) :
    ∃ m, parseQuery C (joinQuery (ps.map fun p => (p.1, getUrlEncode C p.2))) = some m ∧
      ∀ k, m.lookup k = (lastOf ps k).bind C.decodeText := by
  by_cases hps : ps = []
  · rw [hps]
    exact ⟨∅, rfl, fun k => rfl⟩
  obtain ⟨m, hm, hlookup⟩ := parseQuery_joinQuery (C := C) hps
    (fun p hp => notMem_of_all (by decide) (hkeys p hp))
    (fun p hp => ⟨fun h => (hplain p hp).1 ((mem_getUrlEncode_iff hC p.2).1.mp h),
      (mem_getUrlEncode_iff hC p.2).2⟩)
    (fun p hp => by
      rw [decodeText_getUrlEncode hC]
      exact (hplain p hp).2)
  refine ⟨m, hm, fun k => ?_⟩
  rw [hlookup]
  cases lastOf ps k with
  | none => rfl
  | some v => exact decodeText_getUrlEncode hC v

/-- **Pairs** of an alphanumeric key and any value. -/
theorem roundTrips_iff (hC : C.Laws) (hkeys : ∀ p ∈ ps, p.1.all Char.isAlphanum = true) :
    RoundTrips C ps ↔ Readable C ps := by
  constructor
  · rintro ⟨m, hm, hlookup⟩
    have hplain := plain_of_returns hC hkeys (by rw [hm]; rfl)
    obtain ⟨m', hm', hlookup'⟩ := parseQuery_of_plain hC hkeys hplain
    obtain rfl : m = m' := Option.some.inj (hm.symm.trans hm')
    refine ⟨fun p hp => ⟨(hplain p hp).1, isSome_fromUtf8_iff.mp (hplain p hp).2⟩, fun k v hv => ?_⟩
    have heq := (hlookup' k).symm.trans (hlookup k)
    rw [hv] at heq
    exact (decodeText_eq_self_iff hC v).mp heq
  · rintro ⟨hvalues, hlast⟩
    obtain ⟨m, hm, hlookup⟩ := parseQuery_of_plain hC hkeys fun p hp =>
      ⟨(hvalues p hp).1, isSome_fromUtf8_iff.mpr (hvalues p hp).2⟩
    refine ⟨m, hm, fun k => (hlookup k).trans ?_⟩
    cases hv : lastOf ps k with
    | none => rfl
    | some v => exact (decodeText_eq_self_iff hC v).mpr (hlast k v hv)

end Encode

/-- **`get_url_encode`.** Decoding gives a text back just when no `%` of it is followed by two hexadecimal
digits; `parse_query` gives the values of pairs with alphanumeric keys back just when they are readable;
two texts have the same encoding just when they differ at most in escapes that `get_url_encode` could
have written. -/
theorem getUrlEncode_iff {C : PercentCrates} (hC : C.Laws) :
    (∀ c, C.decodeText (getUrlEncode C c) = some c ↔ NoEscape c) ∧
    (∀ ps : List (Text × Text), (∀ p ∈ ps, p.1.all Char.isAlphanum = true) →
      (RoundTrips C ps ↔ Readable C ps)) ∧
    ∀ a b, getUrlEncode C a = getUrlEncode C b ↔ withoutEscapes a = withoutEscapes b := by
  refine ⟨fun c => ?_, fun ps hkeys => roundTrips_iff hC hkeys, getUrlEncode_eq_iff hC⟩
  rw [decodeText_getUrlEncode hC]
  exact decodeText_eq_self_iff hC c

/-- A percent sign, a space, a sign and a character outside ASCII. -/
def plainPairs : List (Text × Text) := [("rate".toList, "5 % = ü".toList), ("q".toList, [])]

theorem roundTrips_plainPairs :
    joinQuery (plainPairs.map fun p => (p.1, getUrlEncode .standard p.2)) =
      "rate=5%20%%20%3D%20%C3%BC&q=".toList ∧
    RoundTrips .standard plainPairs := by
  obtain ⟨hself, hpairs, -⟩ := getUrlEncode_iff PercentCrates.standard_laws
  have hdecode : ∀ p ∈ plainPairs,
      PercentCrates.standard.decodeText (getUrlEncode .standard p.2) = some p.2 := by decide +kernel
  have hfree : ∀ p ∈ plainPairs, NoEscape p.2 := fun p hp => (hself p.2).mp (hdecode p hp)
  refine ⟨by decide +kernel, (hpairs plainPairs (by decide)).mpr ⟨fun p hp => ⟨?_, p.2, ?_⟩, ?_⟩⟩
  · have hplain : ∀ p ∈ plainPairs, '&' ∉ p.2 := by decide
    exact hplain p hp
  · exact ((Percent.unescape_eq_self_iff _ _).mpr (hfree p hp)).symm
  · exact fun k v hv => hfree _ (mem_of_lastOf hv)

/-- An escape in a text is decoded, a separator cuts a value, and `=` and its escape are encoded alike. -/
theorem getUrlEncode_collides :
    PercentCrates.standard.decodeText (getUrlEncode .standard "100%25".toList) =
      some "100%".toList ∧
    parseQuery .standard (joinQuery [(['k'], getUrlEncode .standard "a&b".toList)]) = none ∧
    getUrlEncode .standard "%3D".toList = getUrlEncode .standard "=".toList ∧
    ¬ ((∀ c, PercentCrates.standard.decodeText (getUrlEncode .standard c) = some c) ∧
      (∀ ps : List (Text × Text), (∀ p ∈ ps, p.1.all Char.isAlphanum = true) →
        RoundTrips .standard ps) ∧
      Function.Injective (getUrlEncode .standard)) := by
  have hescape : PercentCrates.standard.decodeText (getUrlEncode .standard "100%25".toList) =
      some "100%".toList := by decide +kernel
  refine ⟨hescape, by decide +kernel, by decide +kernel, fun h => ?_⟩
  have hself := h.1 "100%25".toList
  rw [hescape] at hself
  exact absurd hself (by decide)

end ChimesUtils
