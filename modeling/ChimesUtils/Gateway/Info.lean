import ChimesUtils.GlobalData.FromStr

/-!
# The registration of a gateway client

`GatewayRegisterInfo` is written by a derived `Serialize`, and read by a derived `Deserialize` with
`i64_from_str` and `bool_from_str` for two of its members.

* `deserialize_eq`: what is read from the members of a value that has been written;
* `roundTrip_iff`: which values come back unchanged.
-/

namespace ChimesUtils

/-- `GatewayRegisterInfo`. -/
@[ext]
structure GatewayRegisterInfo where
  appId : Option Text
  appSecret : Option Text
  server : Option Text
  port : Option I64
  rewriteUrl : Option Bool
  protocol : Option Text
  heathCheck : Option Text
  echoText : Option Text
  proxyPrefix : Option Text

/-- The serialisation of an `Option`. -/
def jsonOption {α : Type} (json : α → Json) : Option α → Json
  | none => .null
  | some a => json a

/-- The deserialisation of an `Option<String>` member; `none` is an error. -/
def optionString : Option Json → Option (Option Text)
  | none => some none
  | some .null => some none
  | some (.string s) => some (some s)
  | some _ => none

/-- A member with `serde(default)` and `deserialize_with = "i64_from_str"`. -/
def optionI64 : Option Json → Option (Option I64)
  | none => some none
  | some v => (i64FromStr v).map fun port => port.bind toI64

/-- A member with `serde(default)` and `deserialize_with = "bool_from_str"`. -/
def optionBool : Option Json → Option (Option Bool)
  | none => some none
  | some v => some (boolFromStr v)

namespace GatewayRegisterInfo

/-- The derived `Serialize`. -/
def serialize (gr : GatewayRegisterInfo) : List (Text × Json) :=
  [("app_id".toList, jsonOption .string gr.appId),
    ("app_secret".toList, jsonOption .string gr.appSecret),
    ("server".toList, jsonOption .string gr.server),
    ("port".toList, jsonOption .int64 gr.port),
    ("rewrite_url".toList, jsonOption .bool gr.rewriteUrl),
    ("protocol".toList, jsonOption .string gr.protocol),
    ("heath_check".toList, jsonOption .string gr.heathCheck),
    ("echo_text".toList, jsonOption .string gr.echoText),
    ("proxy_prefix".toList, jsonOption .string gr.proxyPrefix)]

/-- The derived `Deserialize`, on the members of an object. -/
def deserialize (fields : List (Text × Json)) : Option GatewayRegisterInfo := do
  let appId ← optionString (fields.lookup "app_id".toList)
  let appSecret ← optionString (fields.lookup "app_secret".toList)
  let server ← optionString (fields.lookup "server".toList)
  let port ← optionI64 (fields.lookup "port".toList)
  let rewriteUrl ← optionBool (fields.lookup "rewrite_url".toList)
  let protocol ← optionString (fields.lookup "protocol".toList)
  let heathCheck ← optionString (fields.lookup "heath_check".toList)
  let echoText ← optionString (fields.lookup "echo_text".toList)
  let proxyPrefix ← optionString (fields.lookup "proxy_prefix".toList)
  return ⟨appId, appSecret, server, port, rewriteUrl, protocol, heathCheck, echoText, proxyPrefix⟩

/-- The text of a value. -/
def toJson (S : SerdeJson) (gr : GatewayRegisterInfo) : Text := S.display (.object gr.serialize)

/-- The value of a text. -/
def fromJson (S : SerdeJson) (text : Text) : Option GatewayRegisterInfo :=
  match S.fromStr text with
  | .ok v => v.asObject.bind deserialize
  | .error _ => none

end GatewayRegisterInfo

/-- The parser reads what has been written of an object with these members: an object with the same
members, in any order. -/
def SerdeJson.ReadsBack (S : SerdeJson) (fields : List (Text × Json)) : Prop :=
  ∃ fields', S.fromStr (S.display (.object fields)) = .ok (.object fields') ∧
    ∀ key, fields'.lookup key = fields.lookup key

/-! ## One member -/

theorem optionString_jsonOption (s : Option Text) :
    optionString (some (jsonOption .string s)) = some s := by
  cases s with
  | none => rfl
  | some s => rfl

theorem i64FromStr_int64 (n : I64) : i64FromStr (.int64 n) = some (some n.1) := by
  rw [i64FromStr, Json.int64, StrOrI64.deserialize_number]
  show (((Json.int64 n).asI64).map StrOrI64.i64).map StrOrI64.toI64 = _
  rw [Json.asI64_int64]
  rfl

theorem optionI64_jsonOption (port : Option I64) :
    optionI64 (some (jsonOption .int64 port)) = some port := by
  cases port with
  | none => rfl
  | some n =>
    show (i64FromStr (.int64 n)).map (fun port => port.bind toI64) = _
    rw [i64FromStr_int64, Option.map_some, Option.bind_some, toI64_val]

theorem optionBool_jsonOption (b : Option Bool) :
    optionBool (some (jsonOption .bool b)) = some (some (b.getD false)) := by
  cases b with
  | none => rfl
  | some b => rfl

namespace GatewayRegisterInfo

variable {S : SerdeJson} {gr : GatewayRegisterInfo}

/-- **Reading.** A written value is read with `false` for a missing `rewrite_url`. -/
theorem deserialize_eq {fields : List (Text × Json)}
    (h : ∀ key, fields.lookup key = gr.serialize.lookup key) :
    deserialize fields = some { gr with rewriteUrl := some (gr.rewriteUrl.getD false) } := by
  have hmember : ∀ key v, gr.serialize.lookup key = some v → fields.lookup key = some v :=
    fun key v hv => (h key).trans hv
  unfold deserialize
  rw [hmember "app_id".toList _ rfl, hmember "app_secret".toList _ rfl,
    hmember "server".toList _ rfl, hmember "port".toList _ rfl, hmember "rewrite_url".toList _ rfl,
    hmember "protocol".toList _ rfl, hmember "heath_check".toList _ rfl,
    hmember "echo_text".toList _ rfl, hmember "proxy_prefix".toList _ rfl]
  simp only [optionString_jsonOption, optionI64_jsonOption, optionBool_jsonOption,
    Option.bind_eq_bind, Option.bind_some, Option.pure_def]

theorem fromJson_toJson (h : S.ReadsBack gr.serialize) : fromJson S (gr.toJson S) =
    some { gr with rewriteUrl := some (gr.rewriteUrl.getD false) } := by
  obtain ⟨fields, hparse, hlookup⟩ := h
  unfold fromJson toJson
  rw [hparse]
  exact deserialize_eq hlookup

/-- **Round trip.** A value comes back as it was just when its `rewrite_url` is there. -/
theorem roundTrip_iff (S : SerdeJson) (gr : GatewayRegisterInfo) (h : S.ReadsBack gr.serialize) :
    fromJson S (gr.toJson S) = some gr ↔ gr.rewriteUrl.isSome = true := by
  rw [fromJson_toJson h, Option.some_inj, GatewayRegisterInfo.ext_iff]
  cases gr.rewriteUrl with
  | none => simp
  | some b => simp

/-- A value with a port only. -/
def portOnly (rewriteUrl : Option Bool) : GatewayRegisterInfo :=
  ⟨none, none, none, toI64 8080, rewriteUrl, none, none, none, none⟩

/-- The text of `portOnly`, with the text of `rewrite_url`. -/
def portOnlyText (rewriteUrl : String) : Text :=
  ("\x7b\"app_id\":null,\"app_secret\":null,\"server\":null,\"port\":8080,\"rewrite_url\":" ++
    rewriteUrl ++ ",\"protocol\":null,\"heath_check\":null,\"echo_text\":null," ++
      "\"proxy_prefix\":null\x7d").toList

theorem reading_readsBack (text : Text) (fields : List (Text × Json)) :
    (SerdeJson.reading text (.object fields)).ReadsBack fields :=
  ⟨fields, SerdeJson.reading_fromStr _ _, fun _ => rfl⟩

theorem roundTrip_iff_portOnly :
    fromJson (.reading (portOnlyText "true") (.object (portOnly (some true)).serialize))
      ((portOnly (some true)).toJson
        (.reading (portOnlyText "true") (.object (portOnly (some true)).serialize))) =
          some (portOnly (some true)) ↔ (portOnly (some true)).rewriteUrl.isSome = true :=
  roundTrip_iff _ _ (reading_readsBack _ _)

/-- A value without `rewrite_url` comes back with `Some(false)`. -/
theorem fromJson_portOnly_ne :
    fromJson (.reading (portOnlyText "null") (.object (portOnly none).serialize))
      ((portOnly none).toJson (.reading (portOnlyText "null") (.object (portOnly none).serialize))) ≠
        some (portOnly none) := by
  rw [fromJson_toJson (reading_readsBack _ _)]
  intro h
  have hurl := congrArg rewriteUrl (Option.some.inj h)
  cases hurl

end GatewayRegisterInfo

end ChimesUtils
