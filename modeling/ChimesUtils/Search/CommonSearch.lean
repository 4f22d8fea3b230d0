import ChimesUtils.Numerals

/-!
# Searches of a client

`CommonSearch::into_wrapper` turns the entries of a request into calls of an rbatis wrapper. What it
takes from other crates are parameters: the parsers of floats and dates (`Parsers`), and the methods of
the wrapper (`RbatisWrapper`).

`addCondition_eq`: each branch of the dispatch is a call of one method with one list of values.
-/

namespace ChimesUtils

/-- `str::to_lowercase`, as far as a comparison with an ASCII word can see: of the other characters, only
the Kelvin sign and the dotted capital I become ASCII letters. -/
def toLowercase (s : Text) : Text :=
  s.flatMap fun c =>
    if c = '\u212a' then ['k'] else if c = '\u0130' then ['i', '\u0307'] else [c.toLower]

/-- `SearchField`. -/
structure SearchField where
  field : Option Text
  operator : Option Text
  fieldType : Option Text
  val : Option Text
  deriving DecidableEq

/-- `CommonSearch`. -/
structure CommonSearch where
  search : List SearchField
  deriving DecidableEq

/-- The values that `to_value` makes; `F` stands for `f64`. -/
inductive SearchValue (F : Type) where
  | int64 (n : ℤ)
  | double (x : F)
  | string (s : Text)
  | boolean (b : Bool)
  deriving DecidableEq

/-- `str::parse::<f64>`, and whether `DateTimeNative::from_str` and `DateNative::from_str` accept a
text. -/
structure Parsers (F : Type) where
  parseF64 : Text → Option F
  dateTime : Text → Bool
  date : Text → Bool

/-- No floats and no dates. -/
def noParsers : Parsers Unit := ⟨fun _ => none, fun _ => false, fun _ => false⟩

/-- The methods of `rbatis::wrapper::Wrapper` that add a condition. -/
inductive WrapperMethod where
  | eq | ne | gt | ge | lt | le | like | notLike | in_ | notIn | between | notBetween
  | isNull | isNotNull
  deriving DecidableEq

/-- `rbatis::wrapper::Wrapper`: `and`, and the methods with a column and values. -/
structure RbatisWrapper (W F : Type) where
  and : W → W
  call : WrapperMethod → W → Text → List (Option (SearchValue F)) → W

/-- The operators that `into_wrapper` knows. -/
inductive SearchOp where
  | eq | ne | gt | egt | lt | elt | like | notLike | in_ | notIn | range | notRange | null | notNull
  deriving DecidableEq

/-- The words of the operators. -/
def SearchOp.words : List (Text × SearchOp) :=
  [("eq".toList, .eq), ("ne".toList, .ne), ("gt".toList, .gt), ("egt".toList, .egt),
    ("lt".toList, .lt), ("elt".toList, .elt), ("like".toList, .like),
    ("not like".toList, .notLike), ("in".toList, .in_), ("not in".toList, .notIn),
    ("range".toList, .range), ("not range".toList, .notRange), ("null".toList, .null),
    ("not null".toList, .notNull)]

namespace SearchField

/-- The operator of the entry, if it is a known one. -/
def op (f : SearchField) : Option SearchOp :=
  f.operator.bind fun t => SearchOp.words.lookup (toLowercase t)

/-- The column of the entry. -/
def column (f : SearchField) : Text := f.field.getD []

variable {W F : Type} (P : Parsers F) (R : RbatisWrapper W F)

/-- `to_value_inner`. -/
def toValueInner (f : SearchField) (fieldValue : Text) : Option (SearchValue F) :=
  match f.fieldType with
  | some t =>
    let t := toLowercase t
    if t = "integer".toList then (parseI64 fieldValue).map .int64
    else if t = "float".toList then (P.parseF64 fieldValue).map .double
    else if t = "decimal".toList then some (.string fieldValue)
    else if t = "boolean".toList then some (.boolean (toLowercase fieldValue = "true".toList))
    else if t = "datetime".toList then
      if P.dateTime fieldValue then some (.string fieldValue) else none
    else if t = "date".toList then
      if P.date fieldValue then some (.string fieldValue) else none
    else some (.string fieldValue)
  | none => some (.string fieldValue)

/-- `to_value`. -/
def toValue (f : SearchField) : Option (SearchValue F) := f.toValueInner P (f.val.getD [])

/-- `split_value`. -/
def splitValue (f : SearchField) : List (Option (SearchValue F)) :=
  ((f.val.getD []).splitOn ',').map (f.toValueInner P)

/-- The branch of an operator in `into_wrapper`; `none` is the panic of an index out of bounds. -/
def addCondition (f : SearchField) (wp : W) : SearchOp → Option W
  | .eq => some (R.call .eq (R.and wp) f.column [f.toValue P])
  | .ne => some (R.call .ne (R.and wp) f.column [f.toValue P])
  | .gt => some (R.call .gt (R.and wp) f.column [f.toValue P])
  | .egt => some (R.call .gt (R.and wp) f.column [f.toValue P])
  | .lt => some (R.call .lt (R.and wp) f.column [f.toValue P])
  | .elt => some (R.call .le (R.and wp) f.column [f.toValue P])
  | .like => some (R.call .like (R.and wp) f.column [f.toValue P])
  | .notLike => some (R.call .notLike (R.and wp) f.column [f.toValue P])
  | .in_ => some (R.call .in_ (R.and wp) f.column (f.splitValue P))
  | .notIn => some (R.call .notIn (R.and wp) f.column (f.splitValue P))
  | .range =>
    (f.splitValue P)[0]?.bind fun min => (f.splitValue P)[1]?.map fun max =>
      R.call .between (R.and wp) f.column [min, max]
  | .notRange =>
    (f.splitValue P)[0]?.bind fun min => (f.splitValue P)[1]?.map fun max =>
      R.call .notBetween (R.and wp) f.column [min, max]
  | .null => some (R.call .isNull (R.and wp) f.column [])
  | .notNull => some (R.call .isNotNull (R.and wp) f.column [])

end SearchField

section IntoWrapper

variable {W F : Type} (P : Parsers F) (R : RbatisWrapper W F)

/-- The loop of `into_wrapper`. -/
def intoWrapperLoop : List SearchField → W → Option W
  | [], wp => some wp
  | f :: search, wp =>
    match f.op with
    | some op => (f.addCondition P R wp op).bind (intoWrapperLoop search)
    | none => intoWrapperLoop search wp

/-- `into_wrapper`. -/
def CommonSearch.intoWrapper (s : CommonSearch) (wp : W) : Option W :=
  intoWrapperLoop P R s.search wp

/-- The entries with a known operator, in order. -/
def recognised (search : List SearchField) : List (SearchField × SearchOp) :=
  search.filterMap fun f => f.op.map fun op => (f, op)

/-! ## The branches as calls -/

/-- The method that the branch of an operator calls. -/
def SearchOp.method : SearchOp → WrapperMethod
  | eq => .eq
  | ne => .ne
  | gt => .gt
  | egt => .gt
  | lt => .lt
  | elt => .le
  | like => .like
  | notLike => .notLike
  | in_ => .in_
  | notIn => .notIn
  | range => .between
  | notRange => .notBetween
  | null => .isNull
  | notNull => .isNotNull

/-- The values that the branch of an operator passes. -/
def SearchField.values (f : SearchField) : SearchOp → Option (List (Option (SearchValue F)))
  | .eq | .ne | .gt | .egt | .lt | .elt | .like | .notLike => some [f.toValue P]
  | .in_ | .notIn => some (f.splitValue P)
  | .range | .notRange =>
    (f.splitValue P)[0]?.bind fun min => (f.splitValue P)[1]?.map fun max => [min, max]
  | .null | .notNull => some []

/-- **A branch is a call** of its method with its values. -/
theorem SearchField.addCondition_eq (f : SearchField) (wp : W) (op : SearchOp) :
    f.addCondition P R wp op =
      (f.values P op).map fun vs => R.call op.method (R.and wp) f.column vs := by
  cases op with
  | range | notRange =>
    simp only [addCondition, values]
    cases (f.splitValue P)[0]? with
    | none => rfl
    | some min => cases (f.splitValue P)[1]? <;> rfl
  | _ => rfl

theorem recognised_cons (f : SearchField) (search : List SearchField) :
    recognised (f :: search) = (f.op.map fun op => (f, op)).toList ++ recognised search := by
  rw [recognised, recognised, List.filterMap_cons]
  cases f.op <;> rfl

theorem mem_recognised {f : SearchField} {op : SearchOp} {search : List SearchField} :
    (f, op) ∈ recognised search ↔ f ∈ search ∧ f.op = some op := by
  rw [recognised, List.mem_filterMap]
  constructor
  · rintro ⟨f', hf', heq⟩
    obtain ⟨op', hop', heq⟩ := Option.map_eq_some_iff.mp heq
    cases heq
    exact ⟨hf', hop'⟩
  · rintro ⟨hf, hop⟩
    exact ⟨f, hf, Option.map_eq_some_iff.mpr ⟨op, hop, rfl⟩⟩

theorem intoWrapperLoop_cons (f : SearchField) (search : List SearchField) (wp : W) :
    intoWrapperLoop P R (f :: search) wp =
      match f.op with
      | some op => (f.values P op).bind fun vs =>
          intoWrapperLoop P R search (R.call op.method (R.and wp) f.column vs)
      | none => intoWrapperLoop P R search wp := by
  rw [intoWrapperLoop]
  cases f.op with
  | none => rfl
  | some op =>
    simp only [SearchField.addCondition_eq]
    cases f.values P op <;> rfl

end IntoWrapper

end ChimesUtils
