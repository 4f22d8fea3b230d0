import ChimesUtils.Rust
import ChimesUtils.Lib.Percent
import ChimesUtils.Lib.Pairs

/-!
# Query strings

`parse_query` splits a query string at every `&`, and every segment at every `=`; of these parts it
takes the first one as the key and the second one as the value. Percent-decoding and the JSON values
are taken from other crates (`PercentCrates`, `JsonCrate`).

* `queryLoop_eq`: the loop inserts the entries of the segments, and panics on a segment without one;
* `parse_returns_iff`: when the two functions return;
* `maps_iff`: when the values are what follows the first `=` of their segments.
-/

namespace ChimesUtils

open Lib

/-! ## Other crates -/

/-- `percent_encoding::AsciiSet`. -/
abbrev AsciiSet := UInt8 → Bool

/-- `AsciiSet::add`. -/
def AsciiSet.add (set : AsciiSet) (byte : UInt8) : AsciiSet := fun b => b == byte || set b

/-- The parts of `percent_encoding` and `urlencoding` that the functions call. -/
structure PercentCrates where
  /-- `CONTROLS`. -/
  controls : AsciiSet
  utf8PercentEncode : Text → AsciiSet → Text
  percentDecode : Bytes → Bytes
  /-- `urlencoding::encode_binary`. -/
  encodeBinary : Bytes → Text

/-- A map of strings. -/
abbrev QueryMap := AList fun _ : Text => Text

/-- `serde_json`: `Value::Null`, and `to_value` of a map. -/
structure JsonCrate (V : Type) where
  null : V
  toValue : QueryMap → Option V

/-- The bytes of ASCII as characters. -/
def asciiText (bs : Bytes) : Text := bs.map fun b => Char.ofNat b.toNat

/-- Letters, digits, `-`, `_`, `.` and `~`. -/
def unreserved (b : UInt8) : Bool :=
  (Char.ofNat b.toNat).isAlphanum || b == 45 || b == 95 || b == 46 || b == 126

namespace PercentCrates

/-- What the crates document: the control characters of ASCII; every byte of a set and every byte outside
ASCII is escaped; `%` and two hexadecimal digits are decoded, and any other byte stays;
`encode_binary` keeps the unreserved characters. -/
structure Laws (C : PercentCrates) : Prop where
  controls : ∀ b, C.controls b = (decide (b.toNat < 32) || b == 127)
  utf8PercentEncode : ∀ s set, C.utf8PercentEncode s set =
    asciiText (Percent.encode (fun b => decide (b.toNat < 128) && !set b) (utf8 s))
  encodeBinary : ∀ bs, C.encodeBinary bs = asciiText (Percent.encode unreserved bs)
  decode_nil : C.percentDecode [] = []
  decode_escape : ∀ h l c bs, Percent.hexPair h l = some c →
    C.percentDecode (Percent.sign :: h :: l :: bs) = c :: C.percentDecode bs
  decode_plain : ∀ b bs, (b = Percent.sign → ¬ Percent.Escaped Percent.hexPair bs) →
    C.percentDecode (b :: bs) = b :: C.percentDecode bs

/-- The crates as they are documented. -/
def standard : PercentCrates where
  controls b := decide (b.toNat < 32) || b == 127
  utf8PercentEncode s set :=
    asciiText (Percent.encode (fun b => decide (b.toNat < 128) && !set b) (utf8 s))
  percentDecode := Percent.unescape Percent.hexPair
  encodeBinary bs := asciiText (Percent.encode unreserved bs)

theorem standard_laws : standard.Laws where
  controls _ := rfl
  utf8PercentEncode _ _ := rfl
  encodeBinary _ := rfl
  decode_nil := rfl
  decode_escape _ _ _ bs h := Percent.unescape_escape h bs
  decode_plain _ _ h := Percent.unescape_plain h

theorem Laws.percentDecode_eq {C : PercentCrates} (hC : C.Laws) (bs : Bytes) :
    C.percentDecode bs = Percent.unescape Percent.hexPair bs := by
  induction hn : bs.length using Nat.strong_induction_on generalizing bs with
  | _ n ih =>
    cases bs with
    | nil => exact hC.decode_nil
    | cons b bs =>
      rw [List.length_cons] at hn
      rcases Percent.unescape_cases Percent.hexPair b bs with
        ⟨hb, heq⟩ | ⟨h, l, c, rest, rfl, rfl, he, heq⟩
      · rw [hC.decode_plain b bs hb, heq, ih bs.length (by omega) bs rfl]
      · simp only [List.length_cons] at hn
        rw [hC.decode_escape h l c rest he, heq, ih rest.length (by omega) rest rfl]

/-- `percent_decode(v.as_bytes()).decode_utf8()`. -/
def decodeText (C : PercentCrates) (v : Text) : Option Text := fromUtf8 (C.percentDecode (utf8 v))

end PercentCrates

/-! ## The functions -/

section Parse

variable (C : PercentCrates)

/-- The loop of `parse_query`; `none` is a panic. -/
def queryLoop : List Text → QueryMap → Option QueryMap
  | [], res => some res
  | s :: qA, res =>
    let kv := s.splitOn '='
    kv[1]?.bind fun kv1 =>
      (C.decodeText kv1).bind fun kvalue =>
        kv[0]?.bind fun kv0 => queryLoop qA (res.insert kv0 kvalue)

/-- `parse_query`. -/
def parseQuery (queryString : Text) : Option QueryMap :=
  if queryString.isEmpty then some ∅ else queryLoop C (queryString.splitOn '&') ∅

/-- `parse_query_as_value`. -/
def parseQueryAsValue {V : Type} (J : JsonCrate V) (queryString : Text) : Option V :=
  if queryString.isEmpty then some J.null
  else (queryLoop C (queryString.splitOn '&') ∅).map fun res =>
    match J.toValue res with
    | some tv => tv
    | none => J.null

/-- The text that is decoded for a segment: from its first `=` to the next one, or to the end. -/
def valuePart (s : Text) : Text := before '=' (after '=' s)

/-- The entry of a segment. -/
def segmentEntry (s : Text) : Option (Text × Text) :=
  if '=' ∈ s then (C.decodeText (valuePart s)).map fun v => (before '=' s, v) else none

variable {C}

theorem queryLoop_cons (s : Text) (qA : List Text) (res : QueryMap) :
    queryLoop C (s :: qA) res =
      (segmentEntry C s).bind fun e => queryLoop C qA (res.insert e.1 e.2) := by
  rw [queryLoop, segmentEntry]
  by_cases hs : '=' ∈ s
  · have hkv : (s.splitOn '=')[1]? = some (valuePart s) := by
      rw [splitOn_of_mem hs]
      exact getElem?_splitOn_zero '=' _
    rw [if_pos hs, hkv, getElem?_splitOn_zero, Option.bind_some]
    cases C.decodeText (valuePart s) <;> rfl
  · rw [if_neg hs, List.splitOn_eq_singleton hs]
    rfl

/-- **The loop** inserts the entries of the segments in order. -/
theorem queryLoop_eq (qA : List Text) (res : QueryMap) :
    queryLoop C qA res = (qA.mapM (segmentEntry C)).map fun es => insertAll es res := by
  induction qA generalizing res with
  | nil => rfl
  | cons s qA ih =>
    rw [queryLoop_cons, List.mapM_cons]
    cases segmentEntry C s with
    | none => rfl
    | some e =>
      rw [Option.bind_some, ih]
      cases qA.mapM (segmentEntry C) <;> rfl

theorem parseQuery_of_ne_nil {q : Text} (hq : q ≠ []) :
    parseQuery C q = ((q.splitOn '&').mapM (segmentEntry C)).map fun es => insertAll es ∅ := by
  rw [parseQuery, if_neg (by simpa using hq), queryLoop_eq]

theorem isSome_parseQueryAsValue {V : Type} (J : JsonCrate V) (q : Text) :
    (parseQueryAsValue C J q).isSome = (parseQuery C q).isSome := by
  unfold parseQueryAsValue parseQuery
  split_ifs
  · rfl
  · rw [Option.isSome_map]

end Parse

/-! ## Panics -/

/-- A segment has a `=`, and what is decoded for it is the UTF-8 of a text. -/
def WellFormed (C : PercentCrates) (s : Text) : Prop :=
  '=' ∈ s ∧ ∃ t, utf8 t = C.percentDecode (utf8 (valuePart s))

theorem isSome_fromUtf8_iff {b : Bytes} : (fromUtf8 b).isSome = true ↔ ∃ t, utf8 t = b := by
  rw [Option.isSome_iff_exists]
  constructor
  · rintro ⟨t, ht⟩
    exact ⟨t, utf8_of_fromUtf8 ht⟩
  · rintro ⟨t, rfl⟩
    exact ⟨t, fromUtf8_utf8 t⟩

theorem isSome_segmentEntry_iff {C : PercentCrates} {s : Text} :
    (segmentEntry C s).isSome = true ↔ WellFormed C s := by
  unfold segmentEntry WellFormed
  split_ifs with hs
  · rw [Option.isSome_map, PercentCrates.decodeText, isSome_fromUtf8_iff, and_iff_right hs]
  · simp [hs]

theorem isSome_parseQuery_iff {C : PercentCrates} {q : Text} (hq : q ≠ []) :
    (parseQuery C q).isSome = true ↔ ∀ s ∈ q.splitOn '&', WellFormed C s := by
  rw [parseQuery_of_ne_nil hq, Option.isSome_map, isSome_mapM_iff]
  exact forall₂_congr fun s _ => isSome_segmentEntry_iff

/-- **Returning.** For every query string: the two functions return just when it is empty or all its
segments are well formed. -/
theorem parse_returns_iff (C : PercentCrates) {V : Type} (J : JsonCrate V) (q : Text) :
    ((parseQuery C q).isSome = true ∧ (parseQueryAsValue C J q).isSome = true) ↔
      q = [] ∨ ∀ s ∈ q.splitOn '&', WellFormed C s := by
  rw [isSome_parseQueryAsValue, and_self]
  by_cases hq : q = []
  · rw [hq]
    exact iff_of_true rfl (Or.inl rfl)
  · rw [isSome_parseQuery_iff hq, or_iff_right hq]

/-- A value is null or the map. -/
def mapJson : JsonCrate (Option QueryMap) := ⟨none, fun m => some (some m)⟩

/-- A flag without a value. -/
theorem parse_panics_flag :
    parseQuery .standard "page=1&debug".toList = none ∧
    ¬ ∀ q : Text, (parseQuery .standard q).isSome = true ∧
      (parseQueryAsValue .standard mapJson q).isSome = true := by
  have hpanic : parseQuery .standard "page=1&debug".toList = none := by decide +kernel
  refine ⟨hpanic, fun hall => ?_⟩
  have hsome := (hall "page=1&debug".toList).1
  rw [hpanic] at hsome
  cases hsome

/-! ## Characters and bytes -/

section Ascii

theorem le_toNat_of_mem_utf8EncodeChar {c : Char} (h : 128 ≤ c.toNat) {b : UInt8}
    (hb : b ∈ String.utf8EncodeChar c) : 128 ≤ b.toNat := by
  have hv : ¬ c.val.toNat ≤ 127 := Nat.not_le.mpr h
  unfold String.utf8EncodeChar at hb
  rw [if_neg hv] at hb
  split_ifs at hb
  all_goals
    simp only [List.mem_cons, List.not_mem_nil, or_false] at hb
    rcases hb with rfl | rfl | rfl | rfl <;> rw [UInt8.toNat_ofNat'] <;> omega

/-- **An ASCII byte** in the bytes of a text is a character of its own. -/
theorem exists_of_utf8_eq_append {s : Text} {as bs : Bytes} {b : UInt8} (hb : b.toNat < 128)
    (h : utf8 s = as ++ b :: bs) :
    ∃ t u, s = t ++ Char.ofNat b.toNat :: u ∧ utf8 t = as ∧ utf8 u = bs := by
  induction s generalizing as with
  | nil => simp [utf8] at h
  | cons c s ih =>
    rw [utf8_cons] at h
    by_cases hc : c.toNat < 128
    · rw [utf8EncodeChar_of_ascii hc, List.singleton_append] at h
      cases as with
      | nil =>
        obtain ⟨hcb, hs⟩ := List.cons.inj h
        refine ⟨[], s, ?_, rfl, hs⟩
        have hnat : c.toNat = b.toNat := by
          rw [← hcb, UInt8.toNat_ofNat', Nat.mod_eq_of_lt (by omega)]
        rw [← hnat, Char.ofNat_toNat]
        rfl
      | cons a as =>
        obtain ⟨hca, hs⟩ := List.cons.inj h
        obtain ⟨t, u, rfl, rfl, hu⟩ := ih hs
        refine ⟨c :: t, u, rfl, ?_, hu⟩
        rw [utf8_cons, utf8EncodeChar_of_ascii hc, hca]
        rfl
    · rcases List.append_eq_append_iff.mp h with ⟨as', rfl, hs⟩ | ⟨cs, hcs, hs⟩
      · obtain ⟨t, u, rfl, rfl, hu⟩ := ih hs
        exact ⟨c :: t, u, rfl, utf8_cons c t, hu⟩
      · cases cs with
        | nil =>
          have hnil : utf8 s = [] ++ b :: bs := hs.symm
          obtain ⟨t, u, rfl, ht, hu⟩ := ih hnil
          refine ⟨c :: t, u, rfl, ?_, hu⟩
          rw [utf8_cons, ht, hcs, List.append_nil, List.append_nil]
        | cons x cs =>
          -- the byte would be one of a character outside ASCII
          obtain ⟨rfl, -⟩ := List.cons.inj hs
          have hmem : b ∈ String.utf8EncodeChar c := hcs ▸ List.mem_append_right _ List.mem_cons_self
          have hle := le_toNat_of_mem_utf8EncodeChar (by omega) hmem
          omega

end Ascii

/-! ## Keys and values -/

/-- The segments of a query string, each split at its first `=`. -/
def segmentPairs (q : Text) : List (Text × Text) :=
  (q.splitOn '&').map fun s => (before '=' s, after '=' s)

/-- `parse_query` returns the map of the keys to the decoded values, the last segment of a key counts. -/
def MapsValues (C : PercentCrates) (q : Text) : Prop :=
  ∃ m, parseQuery C q = some m ∧ ∀ k, m.lookup k = (lastOf (segmentPairs q) k).bind C.decodeText

section Values

variable {C : PercentCrates}

theorem ne_nil_of_signs {q : Text} (h : ∀ s ∈ q.splitOn '&', '=' ∈ s) : q ≠ [] := by
  rintro rfl
  exact absurd (h [] List.mem_cons_self) (by simp)

/-- **What `parse_query` returns** when every segment has a `=` and what is decoded is UTF-8: the last
segment of a key counts, with its text up to the second `=`. -/
theorem parseQuery_lookup {q : Text} (hsign : ∀ s ∈ q.splitOn '&', '=' ∈ s)
    (hpart : ∀ s ∈ q.splitOn '&', (C.decodeText (valuePart s)).isSome = true) :
    ∃ m, parseQuery C q = some m ∧ ∀ k,
      m.lookup k = (lastOf (segmentPairs q) k).bind fun v => C.decodeText (before '=' v) := by
  have hentries : (q.splitOn '&').mapM (segmentEntry C) = (segmentPairs q).mapM fun e =>
      (C.decodeText (before '=' e.2)).map fun v => (e.1, v) := by
    rw [segmentPairs, List.mapM_map]
    exact mapM_congr_mem fun s hs => if_pos (hsign s hs)
  have hsome : ((q.splitOn '&').mapM (segmentEntry C)).isSome = true := by
    refine isSome_mapM_iff.mpr fun s hs => ?_
    rw [segmentEntry, if_pos (hsign s hs), Option.isSome_map]
    exact hpart s hs
  obtain ⟨es, hes⟩ := Option.isSome_iff_exists.mp hsome
  refine ⟨insertAll es ∅, ?_, fun k => ?_⟩
  · rw [parseQuery_of_ne_nil (ne_nil_of_signs hsign), hes]
    rfl
  · rw [lookup_insertAll, AList.lookup_empty, Option.or_none]
    exact lastOf_of_mapM (hentries ▸ hes) k

theorem decodeText_append (hC : C.Laws) {a b y : Text} (h : C.decodeText (a ++ '=' :: b) = some y) :
    ∃ x z, C.decodeText a = some x ∧ y = x ++ '=' :: z := by
  have hbytes : utf8 (a ++ '=' :: b) = utf8 a ++ 61 :: utf8 b := by
    rw [utf8_append, utf8_cons]
    rfl
  have hvalue : Percent.hexValue 61 = none := by decide
  have hy := utf8_of_fromUtf8 h
  rw [hC.percentDecode_eq, hbytes, Percent.unescape_append (by decide)
    (Percent.hexPair_of_left hvalue) (Percent.hexPair_of_right hvalue)] at hy
  obtain ⟨x, z, rfl, hx, -⟩ := exists_of_utf8_eq_append (by decide) hy
  refine ⟨x, z, ?_, rfl⟩
  rw [PercentCrates.decodeText, hC.percentDecode_eq, ← hx, fromUtf8_utf8]

theorem decodeText_before (hC : C.Laws) {v : Text} (h : (C.decodeText v).isSome = true) :
    (C.decodeText (before '=' v)).isSome = true ∧
      (C.decodeText (before '=' v) = C.decodeText v ↔ '=' ∉ v) := by
  by_cases hv : '=' ∈ v
  · obtain ⟨y, hy⟩ := Option.isSome_iff_exists.mp h
    have hsplit := (eq_before_after hv).1
    rw [hsplit] at hy
    obtain ⟨x, z, hx, hxz⟩ := decodeText_append hC hy
    rw [← hsplit] at hy
    refine ⟨by rw [hx]; rfl, iff_of_false (fun heq => ?_) (not_not.mpr hv)⟩
    rw [hx, hy] at heq
    have hlen := congrArg List.length ((Option.some.inj heq).trans hxz)
    simp at hlen
  · rw [before_of_notMem hv]
    exact ⟨h, iff_of_true rfl hv⟩

end Values

/-- **Values.** For every query string in which every segment has a `=` and every value decodes to UTF-8:
each key is mapped to the decoded text after the first `=` of its last segment just when that text has
no other `=`. -/
theorem maps_iff {C : PercentCrates} (hC : C.Laws) {q : Text}
    (hsign : ∀ s ∈ q.splitOn '&', '=' ∈ s)
    (hvalid : ∀ s ∈ q.splitOn '&', ∃ t, utf8 t = C.percentDecode (utf8 (after '=' s))) :
    MapsValues C q ↔ ∀ k v, lastOf (segmentPairs q) k = some v → '=' ∉ v := by
  have hdecode : ∀ s ∈ q.splitOn '&', (C.decodeText (after '=' s)).isSome = true :=
    fun s hs => isSome_fromUtf8_iff.mpr (hvalid s hs)
  obtain ⟨m, hm, hlookup⟩ := parseQuery_lookup hsign fun s hs => (decodeText_before hC (hdecode s hs)).1
  have hpair : ∀ k v, lastOf (segmentPairs q) k = some v → (C.decodeText v).isSome = true := by
    intro k v hv
    obtain ⟨s, hs, heq⟩ := List.mem_map.mp (mem_of_lastOf hv)
    rw [← (Prod.mk.inj heq).2]
    exact hdecode s hs
  constructor
  · rintro ⟨m', hm', hlookup'⟩ k v hv
    obtain rfl : m = m' := Option.some.inj (hm.symm.trans hm')
    refine (decodeText_before hC (hpair k v hv)).2.mp ?_
    have heq := (hlookup k).symm.trans (hlookup' k)
    rwa [hv] at heq
  · intro hall
    refine ⟨m, hm, fun k => (hlookup k).trans ?_⟩
    cases hv : lastOf (segmentPairs q) k with
    | none => rfl
    | some v => exact (decodeText_before hC (hpair k v hv)).2.mpr (hall k v hv)

/-- A repeated key, an empty value and an escape. -/
def repeatedQuery : Text := "a=1&b=&c=x%20y&a=2".toList

theorem maps_repeatedQuery :
    (parseQuery .standard repeatedQuery).map (fun m => (m.lookup ['a'], m.lookup ['c'])) =
      some (some ['2'], some "x y".toList) ∧ MapsValues .standard repeatedQuery := by
  have hsigns : ∀ s ∈ repeatedQuery.splitOn '&', '=' ∈ s := by decide +kernel
  have hvalid : ∀ s ∈ repeatedQuery.splitOn '&',
      (PercentCrates.standard.decodeText (after '=' s)).isSome = true := by decide +kernel
  have hplain : ∀ e ∈ segmentPairs repeatedQuery, '=' ∉ e.2 := by decide +kernel
  refine ⟨by decide +kernel, (maps_iff PercentCrates.standard_laws hsigns
    fun s hs => isSome_fromUtf8_iff.mp (hvalid s hs)).mpr fun k v hv => ?_⟩
  exact hplain _ (mem_of_lastOf hv)

/-- The padding of a token in base 64 is lost. -/
theorem not_maps_padding :
    (parseQuery .standard "token=YQ==".toList).map (fun m => m.lookup "token".toList) =
      some (some "YQ".toList) ∧
    (lastOf (segmentPairs "token=YQ==".toList) "token".toList).bind
      PercentCrates.standard.decodeText = some "YQ==".toList ∧
    ¬ MapsValues .standard "token=YQ==".toList := by
  have hcode : (parseQuery .standard "token=YQ==".toList).map (fun m => m.lookup "token".toList) =
      some (some "YQ".toList) := by decide +kernel
  have hvalue : (lastOf (segmentPairs "token=YQ==".toList) "token".toList).bind
      PercentCrates.standard.decodeText = some "YQ==".toList := by decide +kernel
  refine ⟨hcode, hvalue, ?_⟩
  rintro ⟨m, hm, hlookup⟩
  have heq := hlookup "token".toList
  rw [hvalue] at heq
  rw [hm, Option.map_some, heq] at hcode
  exact absurd hcode (by decide)

end ChimesUtils
