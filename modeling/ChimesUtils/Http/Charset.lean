import ChimesUtils.Rust

/-!
# The text of a response

`text_with_charset` decodes a body in the encoding that the headers name. When the decoder borrows from
the body, it does not take the decoded text, but builds a string of the whole body.

* `textWithCharset_borrowed`: what comes of a body whose decoded text is borrowed;
* `textWithCharset_eq_iff`: for which bodies the result is the decoded text.
-/

namespace ChimesUtils

/-- `encoding_rs::Encoding`. -/
inductive Encoding where
  | utf8
  | utf16Be
  | utf16Le
  | other (name : Text)
  deriving DecidableEq

/-- `Cow<str>`: what is borrowed is a part of the input. -/
inductive Cow where
  | borrowed (s : Text)
  | owned (s : Text)

def Cow.text : Cow → Text
  | borrowed s => s
  | owned s => s

/-- What the function uses of the crates `http`, `mime` and `encoding_rs`. -/
structure CharsetCrates (HeaderMap HeaderValue Mime : Type) where
  get : HeaderMap → Text → Option HeaderValue
  toStr : HeaderValue → Option Text
  parseMime : Text → Option Mime
  getParam : Mime → Text → Option Text
  forLabel : Text → Option Encoding
  decodeWithoutBomHandling : Encoding → Bytes → Cow

/-- `Encoding::for_bom`: the encoding of a byte-order mark, and the length of the mark. -/
def forBom : Bytes → Option (Encoding × ℕ)
  | 0xef :: 0xbb :: 0xbf :: _ => some (.utf8, 3)
  | 0xff :: 0xfe :: _ => some (.utf16Le, 2)
  | 0xfe :: 0xff :: _ => some (.utf16Be, 2)
  | _ => none

section Function

variable {HeaderMap HeaderValue Mime : Type} (C : CharsetCrates HeaderMap HeaderValue Mime)

/-- `Encoding::decode`. -/
def decode (encoding : Encoding) (bytes : Bytes) : Cow :=
  match forBom bytes with
  | some (e, length) => C.decodeWithoutBomHandling e (bytes.drop length)
  | none => C.decodeWithoutBomHandling encoding bytes

/-- The encoding that the headers name. -/
def encodingOf (headers : HeaderMap) (defaultEncoding : Text) : Encoding :=
  let contentType :=
    ((C.get headers "content-type".toList).bind C.toStr).bind C.parseMime
  let encodingName :=
    (contentType.bind fun mime => C.getParam mime "charset".toList).getD defaultEncoding
  (C.forLabel encodingName).getD .utf8

/-- `text_with_charset`. The bytes that go through `from_utf8_unchecked` have to be UTF-8; `none` stands
for a string that is none. -/
def textWithCharset (headers : HeaderMap) (defaultEncoding : Text) (bs : Bytes) : Option Text :=
  match decode C (encodingOf C headers defaultEncoding) bs with
  | .owned s => some s
  | .borrowed _ => fromUtf8 bs

end Function

/-- The decoders of `encoding_rs`: what is borrowed is all of the input, valid UTF-8 is borrowed by the
decoder of UTF-8, and the decoders of UTF-16 never borrow. -/
structure DecodeLaws {HeaderMap HeaderValue Mime : Type}
    (C : CharsetCrates HeaderMap HeaderValue Mime) : Prop where
  borrowed : ∀ e b s, C.decodeWithoutBomHandling e b = .borrowed s → fromUtf8 b = some s
  utf8 : ∀ b s, fromUtf8 b = some s → C.decodeWithoutBomHandling .utf8 b = .borrowed s
  utf16Be : ∀ b, ∃ s, C.decodeWithoutBomHandling .utf16Be b = .owned s
  utf16Le : ∀ b, ∃ s, C.decodeWithoutBomHandling .utf16Le b = .owned s

/-! ## Byte-order marks -/

/-- A body that starts with the byte-order mark of UTF-8, and is UTF-8 after it. -/
def Marked (bs : Bytes) : Prop := ∃ s : Text, bs = 0xef :: 0xbb :: 0xbf :: utf8 s

theorem utf8_mark (s : Text) : utf8 ('\ufeff' :: s) = 0xef :: 0xbb :: 0xbf :: utf8 s := by
  unfold utf8
  rw [List.flatMap_cons]
  rfl

section Laws

variable {HeaderMap HeaderValue Mime : Type} {C : CharsetCrates HeaderMap HeaderValue Mime}
  (hC : DecodeLaws C) {encoding : Encoding} {bs : Bytes} {s : Text}

include hC

theorem decode_marked (encoding : Encoding) (s : Text) :
    decode C encoding (0xef :: 0xbb :: 0xbf :: utf8 s) = .borrowed s :=
  hC.utf8 (utf8 s) s (fromUtf8_utf8 s)

/-- **Borrowed text.** It is the body, or the body after the mark of UTF-8. -/
theorem bytes_of_borrowed (h : decode C encoding bs = .borrowed s) :
    bs = utf8 s ∨ bs = 0xef :: 0xbb :: 0xbf :: utf8 s := by
  unfold decode forBom at h
  split at h
  · next e length hbom =>
    split at hbom
    · next rest =>
      cases hbom
      have hrest : utf8 s = rest := utf8_of_fromUtf8 (hC.borrowed _ _ _ h)
      rw [hrest]
      exact .inr rfl
    · cases hbom
      obtain ⟨s', hs'⟩ := hC.utf16Le _
      rw [hs'] at h
      cases h
    · cases hbom
      obtain ⟨s', hs'⟩ := hC.utf16Be _
      rw [hs'] at h
      cases h
    · cases hbom
  · exact .inl (utf8_of_fromUtf8 (hC.borrowed _ _ _ h)).symm

variable {headers : HeaderMap} {defaultEncoding : Text}

/-- What comes of a body whose text is borrowed: the text, or the text after a mark. -/
theorem textWithCharset_borrowed
    (h : decode C (encodingOf C headers defaultEncoding) bs = .borrowed s) :
    textWithCharset C headers defaultEncoding bs =
      some (if bs = utf8 s then s else '\ufeff' :: s) := by
  have hbytes : textWithCharset C headers defaultEncoding bs = fromUtf8 bs := by
    unfold textWithCharset
    rw [h]
  rw [hbytes]
  by_cases hbs : bs = utf8 s
  · rw [if_pos hbs, hbs, fromUtf8_utf8]
  · rw [if_neg hbs, (bytes_of_borrowed hC h).resolve_left hbs, ← utf8_mark, fromUtf8_utf8]

theorem textWithCharset_ne_none : textWithCharset C headers defaultEncoding bs ≠ none := by
  cases h : decode C (encodingOf C headers defaultEncoding) bs with
  | borrowed s =>
    rw [textWithCharset_borrowed hC h]
    exact Option.some_ne_none _
  | owned s =>
    unfold textWithCharset
    rw [h]
    exact Option.some_ne_none _

/-- **Text.** The result is the decoded text just when the body is not a marked one. -/
theorem textWithCharset_eq_iff (headers : HeaderMap) (defaultEncoding : Text) (bs : Bytes) :
    textWithCharset C headers defaultEncoding bs =
      some (decode C (encodingOf C headers defaultEncoding) bs).text ↔ ¬ Marked bs := by
  constructor
  · rintro heq ⟨s, rfl⟩
    have hborrowed := decode_marked hC (encodingOf C headers defaultEncoding) s
    have hne : ((0xef :: 0xbb :: 0xbf :: utf8 s : Bytes)) ≠ utf8 s := by
      intro h
      have hlen := congrArg List.length h
      simp only [List.length_cons] at hlen
      omega
    rw [textWithCharset_borrowed hC hborrowed, hborrowed, if_neg hne] at heq
    exact List.cons_ne_self _ _ (Option.some.inj heq)
  · intro hunmarked
    cases h : decode C (encodingOf C headers defaultEncoding) bs with
    | borrowed s =>
      have hbs : bs = utf8 s := (bytes_of_borrowed hC h).resolve_right fun hm => hunmarked ⟨s, hm⟩
      rw [textWithCharset_borrowed hC h, if_pos hbs]
      rfl
    | owned s =>
      unfold textWithCharset
      rw [h]
      rfl

end Laws

/-! ## One client -/

/-- The text of UTF-8 that has been checked. -/
def checkedCow : Option Text → Cow
  | some s => .borrowed s
  | none => .owned ['\ufffd']

/-- Crates that know the label `utf-8` only, for a response without headers. The decoder of UTF-8 is as
it is for valid bytes; the others take every byte for a character. -/
def utf8Crates : CharsetCrates Unit Unit Unit where
  get _ _ := none
  toStr _ := none
  parseMime _ := none
  getParam _ _ := none
  forLabel name := if name = "utf-8".toList then some .utf8 else none
  decodeWithoutBomHandling
    | .utf8, b => checkedCow (fromUtf8 b)
    | _, b => .owned (b.map fun x => Char.ofNat x.toNat)

theorem decodeLaws_utf8Crates : DecodeLaws utf8Crates where
  borrowed e b s h := by
    cases e with
    | utf8 =>
      have hchecked : checkedCow (fromUtf8 b) = .borrowed s := h
      cases hb : fromUtf8 b with
      | some s' =>
        rw [hb] at hchecked
        cases hchecked
        rfl
      | none =>
        rw [hb] at hchecked
        cases hchecked
    | _ => cases h
  utf8 b s h := by
    show checkedCow (fromUtf8 b) = .borrowed s
    rw [h]
    rfl
  utf16Be b := ⟨_, rfl⟩
  utf16Le b := ⟨_, rfl⟩

theorem textWithCharset_eq_iff_ok : textWithCharset utf8Crates () "utf-8".toList (utf8 "ok".toList) =
    some (decode utf8Crates (encodingOf utf8Crates () "utf-8".toList) (utf8 "ok".toList)).text ↔
      ¬ Marked (utf8 "ok".toList) :=
  textWithCharset_eq_iff decodeLaws_utf8Crates () "utf-8".toList (utf8 "ok".toList)

/-- The text `ok` after a byte-order mark comes with the mark. -/
theorem textWithCharset_marked_ne :
    textWithCharset utf8Crates () "utf-8".toList (0xef :: 0xbb :: 0xbf :: utf8 "ok".toList) ≠
      some (decode utf8Crates (encodingOf utf8Crates () "utf-8".toList)
        (0xef :: 0xbb :: 0xbf :: utf8 "ok".toList)).text := by
  have hborrowed := decode_marked decodeLaws_utf8Crates (encodingOf utf8Crates () "utf-8".toList)
    "ok".toList
  rw [textWithCharset_borrowed decodeLaws_utf8Crates hborrowed, hborrowed]
  decide

end ChimesUtils
