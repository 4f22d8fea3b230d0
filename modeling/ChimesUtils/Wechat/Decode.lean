import ChimesUtils.Json
import ChimesUtils.Wechat.Token

/-!
# Responses of the WeChat server

`json_decode` parses a response and reads its status: the member `errcode`, or else `code`. A status
that is no integer of `i64` counts as zero, and one that is goes through a cast to `i32`.

* `jsonDecode_object`: what the function makes of an object;
* `decodesWell_iff`: for which responses it reports success and failure as the response has them;
* `getAccessToken_eq_none_iff`: which responses bring down the caller.
-/

namespace ChimesUtils

/-- `WechatErrorKind`, the two kinds that are made here. -/
inductive WechatError where
  | msg (message : Text)
  | custom (code : ℤ) (msg : Text)

variable (S : SerdeJson)

/-- `dic.contains_key(key)`. -/
def containsKey (dic : List (Text × Json)) (key : Text) : Bool := (dic.lookup key).isSome

/-- `json_decode`; `none` is the panic on a value that is no object. -/
def jsonDecode (data : Text) : Option (Except WechatError Json) :=
  match S.fromStr data with
  | .error e => some (.error (.custom (-3) ("Json decode error: ".toList ++ e)))
  | .ok obj =>
    obj.asObject.map fun dic =>
      let key := if containsKey dic "errcode".toList then "errcode".toList else "code".toList
      let code := (obj.index key).asI64.getD 0
      if code ≠ 0 then
        let msg :=
          if containsKey dic "msg".toList then S.display (obj.index "msg".toList)
          else S.display (obj.index "errmsg".toList)
        .error (.custom (asI32 code) msg)
      else .ok obj

/-- The response handling of `get_access_token`; `none` is a panic. The last argument is the place of
the token in the order of issue. -/
def getAccessToken (now : ℕ) (response : Option Text) (serial : ℕ) :
    Option (Except WechatError TokioToken) :=
  match response with
  | none => some (.error (.msg "access token is invalid".toList))
  | some res => (jsonDecode S res).map fun
    | .error err => .error err
    | .ok data => match (data.index "access_token".toList).asStr with
      | none => .error (.msg "access token error".toList)
      | some token => .ok ⟨token, now, 7200, serial⟩

/-! ## The status -/

/-- The status member of a response. -/
def wechatStatus (dic : List (Text × Json)) : Option Json :=
  if containsKey dic "errcode".toList then dic.lookup "errcode".toList else dic.lookup "code".toList

/-- The status as the function reads it. -/
def statusCode (status : Option Json) : ℤ := (status.bind Json.asI64).getD 0

/-- The text of the error. -/
def statusMsg (dic : List (Text × Json)) : Text :=
  if containsKey dic "msg".toList then S.display ((Json.object dic).index "msg".toList)
  else S.display ((Json.object dic).index "errmsg".toList)

/-- A status that reports success: none, the number 0, or the string `"0"`. -/
def ReportsSuccess : Option Json → Prop
  | none => True
  | some (.number num) => num.value = 0
  | some (.string s) => s = ['0']
  | some _ => False

variable {S} {data : Text}

theorem asI64_index (dic : List (Text × Json)) (key : Text) :
    ((Json.object dic).index key).asI64 = (dic.lookup key).bind Json.asI64 := by
  rw [Json.index_object]
  cases dic.lookup key with
  | none => rfl
  | some v => rfl

/-- **One object.** The status decides, and the error carries it after the cast. -/
theorem jsonDecode_object {dic : List (Text × Json)} (h : S.fromStr data = .ok (.object dic)) :
    jsonDecode S data = some (if statusCode (wechatStatus dic) ≠ 0 then
      .error (.custom (asI32 (statusCode (wechatStatus dic))) (statusMsg S dic))
      else .ok (.object dic)) := by
  have hcode : (((Json.object dic).index (if containsKey dic "errcode".toList then "errcode".toList
      else "code".toList)).asI64).getD 0 = statusCode (wechatStatus dic) := by
    rw [asI64_index, statusCode, wechatStatus]
    split_ifs <;> rfl
  unfold jsonDecode
  rw [h]
  show some _ = some _
  rw [← hcode]
  rfl

theorem jsonDecode_error {e : Text} (h : S.fromStr data = .error e) :
    jsonDecode S data = some (.error (.custom (-3) ("Json decode error: ".toList ++ e))) := by
  unfold jsonDecode
  rw [h]

theorem jsonDecode_eq_none_iff :
    jsonDecode S data = none ↔ ∃ v, S.fromStr data = .ok v ∧ v.asObject = none := by
  unfold jsonDecode
  cases S.fromStr data with
  | error e => simp only [reduceCtorEq, false_and, exists_false]
  | ok v => simp only [Option.map_eq_none_iff, Except.ok.injEq, exists_eq_left']

/-- **The caller.** A response brings down `get_access_token` just when it is JSON but no object. -/
theorem getAccessToken_eq_none_iff {now serial : ℕ} {response : Option Text} :
    getAccessToken S now response serial = none ↔
      ∃ res v, response = some res ∧ S.fromStr res = .ok v ∧ v.asObject = none := by
  cases response with
  | none => simp [getAccessToken]
  | some res =>
    rw [getAccessToken, Option.map_eq_none_iff, jsonDecode_eq_none_iff]
    simp

/-! ## What the function should report -/

/-- The function returns, it returns the response just when the status reports success, a number of
`i32` becomes the code of the error, and no error has the code 0. -/
structure DecodesWell (S : SerdeJson) (data : Text) : Prop where
  total : jsonDecode S data ≠ none
  ok_iff : ∀ v, jsonDecode S data = some (.ok v) ↔
    ∃ dic, v = .object dic ∧ S.fromStr data = .ok v ∧ ReportsSuccess (wechatStatus dic)
  code : ∀ dic num (n : ℤ), S.fromStr data = .ok (.object dic) →
    wechatStatus dic = some (.number num) → num.value = n → n ≠ 0 → IsI32 n →
      ∃ msg, jsonDecode S data = some (.error (.custom n msg))
  nonzero : ∀ msg, jsonDecode S data ≠ some (.error (.custom 0 msg))

/-- A status that the function takes for what it is: one that reports success, or an integer of `i64`
that the cast to `i32` does not make zero. -/
def ReadRightly (status : Option Json) : Prop :=
  ReportsSuccess status ∨
    ∃ num n, status = some (.number num) ∧ num.asI64 = some n ∧ n % 4294967296 ≠ 0

theorem statusCode_number (num : JsonNumber) :
    statusCode (some (.number num)) = (num.asI64).getD 0 := rfl

theorem statusCode_of_reportsSuccess {status : Option Json} (h : ReportsSuccess status) :
    statusCode status = 0 := by
  cases status with
  | none => rfl
  | some v =>
    cases v with
    | number num =>
      rw [statusCode_number]
      cases hcode : num.asI64 with
      | none => rfl
      | some n =>
        have hvalue : (n : ℚ) = 0 := (JsonNumber.value_of_asI64 hcode).symm.trans h
        exact Int.cast_eq_zero.mp hvalue
    | _ => rfl

theorem exists_of_statusCode_ne_zero {status : Option Json} (h : statusCode status ≠ 0) :
    ∃ num, status = some (.number num) ∧ num.asI64 = some (statusCode status) := by
  cases status with
  | none => exact absurd rfl h
  | some v =>
    cases v with
    | number num =>
      refine ⟨num, rfl, ?_⟩
      rw [statusCode_number] at h ⊢
      cases hcode : num.asI64 with
      | none =>
        rw [hcode] at h
        exact absurd rfl h
      | some n => rfl
    | _ => exact absurd rfl h

section Status

variable {status : Option Json} (h : ReadRightly status)

include h

theorem statusCode_eq_zero_iff : statusCode status = 0 ↔ ReportsSuccess status := by
  refine ⟨fun hcode => h.resolve_right ?_, statusCode_of_reportsSuccess⟩
  rintro ⟨num, n, hstatus, hn, hmod⟩
  have hval : statusCode status = n := by
    rw [hstatus, statusCode_number, hn, Option.getD_some]
  rw [hval] at hcode
  exact hmod (by rw [hcode]; rfl)

theorem asI32_statusCode_ne_zero (hcode : statusCode status ≠ 0) : asI32 (statusCode status) ≠ 0 := by
  rcases h with hsuccess | ⟨num, n, hstatus, hn, hmod⟩
  · exact absurd (statusCode_of_reportsSuccess hsuccess) hcode
  · rw [hstatus, Ne, asI32_eq_zero_iff, statusCode_number, hn, Option.getD_some]
    exact hmod

theorem statusCode_of_value {num : JsonNumber} {n : ℤ} (hstatus : status = some (.number num))
    (hvalue : num.value = n) (hn : n ≠ 0) : statusCode status = n := by
  have hcode : statusCode status ≠ 0 := by
    rw [Ne, statusCode_eq_zero_iff h, hstatus]
    show ¬ num.value = 0
    rw [hvalue]
    exact_mod_cast hn
  obtain ⟨num', hstatus', hcode'⟩ := exists_of_statusCode_ne_zero hcode
  rw [hstatus] at hstatus'
  cases hstatus'
  have hsame := (JsonNumber.value_of_asI64 hcode').symm.trans hvalue
  exact_mod_cast hsame

end Status

section Object

variable {dic : List (Text × Json)} (hobj : S.fromStr data = .ok (.object dic))

include hobj

theorem jsonDecode_eq_ok_iff {v : Json} : jsonDecode S data = some (.ok v) ↔
    v = .object dic ∧ statusCode (wechatStatus dic) = 0 := by
  rw [jsonDecode_object hobj]
  by_cases hcode : statusCode (wechatStatus dic) = 0
  · rw [if_neg (not_not_intro hcode)]
    simp [hcode, eq_comm]
  · rw [if_pos hcode]
    simp [hcode]

theorem decodesWell_of_readRightly (h : ReadRightly (wechatStatus dic)) : DecodesWell S data := by
  constructor
  · rw [jsonDecode_object hobj]
    simp
  · intro v
    rw [jsonDecode_eq_ok_iff hobj, statusCode_eq_zero_iff h]
    constructor
    · rintro ⟨rfl, hsuccess⟩
      exact ⟨dic, rfl, hobj, hsuccess⟩
    · rintro ⟨dic', rfl, hobj', hsuccess⟩
      rw [hobj] at hobj'
      cases hobj'
      exact ⟨rfl, hsuccess⟩
  · intro dic' num n hobj' hstatus hvalue hn hfits
    rw [hobj] at hobj'
    cases hobj'
    have hcode : statusCode (wechatStatus dic) = n := statusCode_of_value h hstatus hvalue hn
    rw [jsonDecode_object hobj, hcode, if_pos hn, asI32_eq_self_iff.mpr hfits]
    exact ⟨_, rfl⟩
  · intro msg
    rw [jsonDecode_object hobj]
    by_cases hcode : statusCode (wechatStatus dic) = 0
    · rw [if_neg (not_not_intro hcode)]
      simp
    · rw [if_pos hcode]
      simp [asI32_statusCode_ne_zero h hcode]

theorem DecodesWell.readRightly (h : DecodesWell S data) : ReadRightly (wechatStatus dic) := by
  by_cases hcode : statusCode (wechatStatus dic) = 0
  · obtain ⟨dic', heq, -, hsuccess⟩ :=
      (h.ok_iff (.object dic)).mp ((jsonDecode_eq_ok_iff hobj).mpr ⟨rfl, hcode⟩)
    cases heq
    exact .inl hsuccess
  · obtain ⟨num, hstatus, hnum⟩ := exists_of_statusCode_ne_zero hcode
    refine .inr ⟨num, _, hstatus, hnum, ?_⟩
    intro hmod
    refine h.nonzero (statusMsg S dic) ?_
    rw [jsonDecode_object hobj, if_pos hcode, asI32_eq_zero_iff.mpr hmod]

end Object

/-- **Reports.** The function reports what the response has just when the text is no JSON, or is an
object whose status reports success or is an integer of `i64` that is no multiple of `2 ^ 32`. -/
theorem decodesWell_iff (S : SerdeJson) (data : Text) : DecodesWell S data ↔
    (∃ e, S.fromStr data = .error e) ∨
      ∃ dic, S.fromStr data = .ok (.object dic) ∧ ReadRightly (wechatStatus dic) := by
  constructor
  · intro h
    cases hparse : S.fromStr data with
    | error e => exact .inl ⟨e, rfl⟩
    | ok v =>
      cases v with
      | object dic => exact .inr ⟨dic, rfl, h.readRightly hparse⟩
      | _ => exact absurd (jsonDecode_eq_none_iff.mpr ⟨_, hparse, rfl⟩) h.total
  · rintro (⟨e, he⟩ | ⟨dic, hobj, hstatus⟩)
    · have herr := jsonDecode_error he
      constructor
      · simp [herr]
      · simp [herr, he]
      · intro dic num n hobj
        rw [he] at hobj
        cases hobj
      · simp [herr]
    · exact decodesWell_of_readRightly hobj hstatus

/-- The array `[]` brings the function down, and the error code `"40001"`, sent as a string, is taken
for a success. -/
theorem not_decodesWell_array :
    ¬ DecodesWell (.reading "[]".toList (.array [])) "[]".toList ∧
      ¬ DecodesWell (.reading "\x7b\"errcode\":\"40001\"\x7d".toList
        (.object [("errcode".toList, .string "40001".toList)]))
        "\x7b\"errcode\":\"40001\"\x7d".toList := by
  constructor
  · intro h
    exact h.total (jsonDecode_eq_none_iff.mpr ⟨.array [], SerdeJson.reading_fromStr _ _, rfl⟩)
  · intro h
    rcases h.readRightly (SerdeJson.reading_fromStr _ _) with hsuccess | ⟨num, n, hstatus, -⟩
    · have hstring : "40001".toList = ['0'] := hsuccess
      exact absurd hstring (by decide)
    · have hnumber : some (Json.string "40001".toList) = some (Json.number num) := hstatus
      cases hnumber

end ChimesUtils
