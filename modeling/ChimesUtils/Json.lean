import ChimesUtils.Numerals

/-!
# JSON values

`serde_json::Value` and what the source uses of it. The text of a value and the parser are parameters
(`SerdeJson`). A derived `Deserialize` of an untagged enum takes the first variant that fits
(`untagged`).
-/

namespace ChimesUtils

/-- `serde_json::Number`: an integer of `u64` or of `i64`, or the value of a finite `f64`. -/
inductive JsonNumber where
  | int (n : ℤ) (range : -9223372036854775808 ≤ n ∧ n < 18446744073709551616)
  | float (x : ℚ)

namespace JsonNumber

/-- The number itself, however it is kept. -/
def value : JsonNumber → ℚ
  | int n _ => n
  | float x => x

/-- `as_i64`. -/
def asI64 : JsonNumber → Option ℤ
  | int n _ => if IsI64 n then some n else none
  | float _ => none

/-- `as_u64`. -/
def asU64 : JsonNumber → Option ℕ
  | int n _ => if 0 ≤ n then some n.toNat else none
  | float _ => none

theorem value_of_asI64 {num : JsonNumber} {n : ℤ} (h : num.asI64 = some n) : num.value = n := by
  cases num with
  | float x => cases h
  | int m range =>
    have heq : (if IsI64 m then some m else none) = some n := h
    split_ifs at heq
    rw [← Option.some.inj heq]
    rfl

end JsonNumber

/-- `serde_json::Value`. The keys of an object are distinct. -/
inductive Json where
  | null
  | bool (b : Bool)
  | number (num : JsonNumber)
  | string (s : Text)
  | array (items : List Json)
  | object (fields : List (Text × Json))

namespace Json

/-- `as_object`. -/
def asObject : Json → Option (List (Text × Json))
  | object fields => some fields
  | _ => none

/-- `as_i64`. -/
def asI64 : Json → Option ℤ
  | number num => num.asI64
  | _ => none

/-- `as_str`. -/
def asStr : Json → Option Text
  | string s => some s
  | _ => none

/-- `value[key]`: null where there is no such member. -/
def index (v : Json) (key : Text) : Json := (v.asObject.bind fun dic => dic.lookup key).getD null

theorem index_object (dic : List (Text × Json)) (key : Text) :
    (object dic).index key = (dic.lookup key).getD null := rfl

/-- The integers of `i64`. -/
def int64 (n : I64) : Json :=
  number (.int n.1 (by have h := n.2; unfold IsI64 at h; omega))

@[simp] theorem asI64_int64 (n : I64) : (int64 n).asI64 = some n.1 := if_pos n.2

end Json

/-- `serde_json`: the parser, with the text of its error, and `to_string`. -/
structure SerdeJson where
  fromStr : Text → Except Text Json
  display : Json → Text

/-- A parser that knows one text. -/
def SerdeJson.reading (text : Text) (v : Json) : SerdeJson where
  fromStr t := if t = text then .ok v else .error "expected value".toList
  display _ := text

@[simp] theorem SerdeJson.reading_fromStr (text : Text) (v : Json) :
    (reading text v).fromStr text = .ok v := if_pos rfl

theorem SerdeJson.reading_fromStr_of_ne {text t : Text} (v : Json) (h : t ≠ text) :
    (reading text v).fromStr t = .error "expected value".toList := if_neg h

/-! ## Untagged enums -/

/-- The variants of an untagged enum are tried in order. -/
def untagged {α : Type} (variants : List (Json → Option α)) (v : Json) : Option α :=
  variants.findSome? fun variant => variant v

@[simp] theorem untagged_nil {α : Type} (v : Json) : untagged ([] : List (Json → Option α)) v = none :=
  rfl

@[simp] theorem untagged_cons {α : Type} (variant : Json → Option α) (variants : List (Json → Option α))
    (v : Json) : untagged (variant :: variants) v = (variant v).or (untagged variants v) := by
  unfold untagged
  rw [List.findSome?_cons]
  cases variant v with
  | none => rfl
  | some a => rfl

/-- A variant without data. -/
def unitVariant {α : Type} (a : α) : Json → Option α
  | .null => some a
  | _ => none

/-- A variant that holds a `String`. -/
def stringVariant {α : Type} (f : Text → α) (v : Json) : Option α := v.asStr.map f

/-- A variant that holds an `i64`. -/
def i64Variant {α : Type} (f : ℤ → α) (v : Json) : Option α := v.asI64.map f

/-- A variant that holds a `u64`. -/
def u64Variant {α : Type} (f : ℕ → α) : Json → Option α
  | .number num => num.asU64.map f
  | _ => none

/-- A variant that holds a `bool`. -/
def boolVariant {α : Type} (f : Bool → α) : Json → Option α
  | .bool b => some (f b)
  | _ => none

end ChimesUtils
