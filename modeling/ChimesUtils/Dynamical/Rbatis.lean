import ChimesUtils.Rust
import ChimesUtils.Lib.Token

/-!
# What the SQL builder takes from rbatis

The builder calls three things that are not part of the repository: the keyword table
`rbatis::sql::TEMPLATE`, the method `stmt_convert` of the driver type, and the `Display` of a BSON
value. They are the fields of `Rbatis`; what the builder relies on is stated by

* `Rbatis.Numbered`: `stmt_convert` writes `?`, `$n` or `@pn`, counting from one;
* `Template.Plain`: every text of the keyword table consists of letters and spaces;
* `Template.Standard`: the words are those of SQL, in lower case except for `null`, which may be written
  in any case. `Template.rbatis` is the table itself, which has `NULL`.

`Rbatis.standard` is the instance with this table.
-/

namespace ChimesUtils

open Lib

/-- `rbatis::core::db::DriverType`. -/
inductive DriverType where
  | none
  | mysql
  | postgres
  | sqlite
  | mssql
  deriving DecidableEq, Repr

/-- The part of `rbson::Bson` that the builder distinguishes. -/
inductive Bson where
  | null
  | boolean (b : Bool)
  | int64 (n : ℤ)
  | double (bits : ℕ)
  | string (s : Text)
  | array (xs : List Bson)
  | document (fields : List (Text × Bson))

/-- `Bson::as_str`. -/
def Bson.asStr : Bson → Option Text
  | .string s => some s
  | _ => Option.none

/-- A keyword with its spacings. -/
structure Keyword where
  value : Text
  leftSpace : Text
  rightSpace : Text
  leftRightSpace : Text

namespace Keyword

/-- A word with the spacings the field names say. -/
def spaced (w : Text) : Keyword := ⟨w, ' ' :: w, w ++ [' '], ' ' :: w ++ [' ']⟩

/-- All texts of a keyword. -/
def texts (k : Keyword) : List Text := [k.value, k.leftSpace, k.rightSpace, k.leftRightSpace]

/-- A letter or a space. -/
def wordChar (c : Char) : Bool := c.isAlpha || c == ' '

/-- Every text of the keyword is non-empty and consists of letters and spaces. -/
def Plain (k : Keyword) : Prop := ∀ s ∈ k.texts, s ≠ [] ∧ ∀ c ∈ s, wordChar c = true

theorem plain_spaced {w : Text} (hne : w ≠ []) (hw : ∀ c ∈ w, wordChar c = true) :
    (spaced w).Plain := by
  have hs : wordChar ' ' = true := by simp [wordChar]
  simp only [Plain, texts, spaced, List.forall_mem_cons, List.not_mem_nil, false_imp_iff,
    implies_true, and_true, List.cons_append, List.forall_mem_append]
  exact ⟨⟨hne, hw⟩, ⟨by simp, hs, hw⟩, ⟨by simp, hw, hs⟩, by simp, hs, hw, hs⟩

end Keyword

/-- The keywords of `rbatis::sql::TEMPLATE` that the builder uses. -/
structure Template where
  where_ : Keyword
  and : Keyword
  or : Keyword
  having : Keyword
  between : Keyword
  not : Keyword
  like : Keyword
  is : Keyword
  null : Keyword
  in_ : Keyword
  orderBy : Keyword
  groupBy : Keyword
  asc : Keyword
  desc : Keyword
  limit : Keyword
  insertInto : Keyword
  values : Keyword

namespace Template

/-- All keywords of the table. -/
def keywords (T : Template) : List Keyword :=
  [T.where_, T.and, T.or, T.having, T.between, T.not, T.like, T.is, T.null, T.in_, T.orderBy,
    T.groupBy, T.asc, T.desc, T.limit, T.insertInto, T.values]

/-- Every text of the table is non-empty and consists of letters and spaces. -/
def Plain (T : Template) : Prop := ∀ k ∈ T.keywords, k.Plain

/-- The table with lower-case words and the given word for `null`. -/
def words (null : Text) : Template where
  where_ := .spaced "where".toList
  and := .spaced "and".toList
  or := .spaced "or".toList
  having := .spaced "having".toList
  between := .spaced "between".toList
  not := .spaced "not".toList
  like := .spaced "like".toList
  is := .spaced "is".toList
  null := .spaced null
  in_ := .spaced "in".toList
  orderBy := .spaced "order by".toList
  groupBy := .spaced "group by".toList
  asc := .spaced "asc".toList
  desc := .spaced "desc".toList
  limit := .spaced "limit".toList
  insertInto := .spaced "insert into".toList
  values := .spaced "values".toList

/-- The table of rbatis without its feature for upper-case keywords. -/
def rbatis : Template := words "NULL".toList

/-- The words are in lower case, and `null` in any case. -/
structure Standard (T : Template) : Prop where
  eq_words : T = words T.null.value
  null : T.null.value.map Char.toLower = "null".toList

theorem standard_rbatis : rbatis.Standard := ⟨rfl, by decide⟩

/-- The words of the table. -/
def wordList (null : Text) : List Text :=
  ["where".toList, "and".toList, "or".toList, "having".toList, "between".toList, "not".toList,
    "like".toList, "is".toList, null, "in".toList, "order by".toList, "group by".toList, "asc".toList,
    "desc".toList, "limit".toList, "insert into".toList, "values".toList]

theorem keywords_words (null : Text) : (words null).keywords = (wordList null).map Keyword.spaced := rfl

theorem isAlpha_of_toLower {c : Char} (hc : c.toLower.isAlpha = true) : c.isAlpha = true := by
  rw [Char.toLower] at hc
  split at hc
  · rename_i h
    have hupper : c.isUpper = true := decide_eq_true_iff.mpr h
    rw [Char.isAlpha, hupper, Bool.true_or]
  · exact hc

namespace Standard

variable {T : Template} (h : T.Standard)

include h

theorem isAlpha_null : ∀ c ∈ T.null.value, c.isAlpha = true := by
  intro c hc
  have hmem : c.toLower ∈ "null".toList := h.null ▸ List.mem_map_of_mem hc
  have hall : ∀ a ∈ "null".toList, a.isAlpha = true := by simp
  exact isAlpha_of_toLower (hall _ hmem)

theorem exists_words : ∃ null, T = words null := ⟨_, h.eq_words⟩

theorem null_ne_nil : T.null.value ≠ [] := by
  intro hnil
  have hnull := h.null
  rw [hnil] at hnull
  exact absurd hnull (by decide)

theorem null_concat : ∃ r c, T.null.leftSpace = r ++ [c] ∧ c.toLower = 'l' := by
  have hlast := congrArg List.getLast? h.null
  rw [List.getLast?_map] at hlast
  obtain ⟨c, hc, hlower⟩ := Option.map_eq_some_iff.mp (hlast.trans (show _ = some 'l' by decide))
  obtain ⟨r, hr⟩ := List.getLast?_eq_some_iff.mp hc
  refine ⟨' ' :: r, c, ?_, hlower⟩
  rw [h.eq_words]
  exact congrArg (' ' :: ·) hr

theorem plain : T.Plain := by
  intro k hk
  rw [h.eq_words, keywords_words, List.mem_map] at hk
  obtain ⟨w, hw, rfl⟩ := hk
  have hchar : ∀ c ∈ T.null.value, Keyword.wordChar c = true := by
    intro c hc
    rw [Keyword.wordChar, h.isAlpha_null c hc, Bool.true_or]
  have hwords : ∀ w ∈ wordList T.null.value, w ≠ [] ∧ ∀ c ∈ w, Keyword.wordChar c = true := by
    simpa [wordList, Keyword.wordChar, h.null_ne_nil] using hchar
  exact Keyword.plain_spaced (hwords w hw).1 (hwords w hw).2

end Standard

end Template

/-- The parts of rbatis that the builder calls. -/
structure Rbatis where
  template : Template
  /-- The text `stmt_convert` appends for an argument index. -/
  stmtConvert : DriverType → ℕ → Text
  /-- The `Display` of a BSON value. -/
  display : Bson → Text

namespace Rbatis

/-- `stmt_convert` numbers from one: `?`, `$1`, `@p1`. -/
structure Numbered (R : Rbatis) : Prop where
  mysql : ∀ i, R.stmtConvert .mysql i = ['?']
  sqlite : ∀ i, R.stmtConvert .sqlite i = ['?']
  postgres : ∀ i, R.stmtConvert .postgres i = '$' :: decimal (i + 1)
  mssql : ∀ i, R.stmtConvert .mssql i = '@' :: 'p' :: decimal (i + 1)

/-- Numbering from one, with the table of rbatis; scalar values display as they are written. -/
def standard : Rbatis where
  template := .rbatis
  stmtConvert d i := match d with
    | .none => []
    | .mysql | .sqlite => ['?']
    | .postgres => '$' :: decimal (i + 1)
    | .mssql => '@' :: 'p' :: decimal (i + 1)
  display
    | .null => "null".toList
    | .boolean b => if b then "true".toList else "false".toList
    | .int64 n => if n < 0 then '-' :: decimal n.natAbs else decimal n.natAbs
    | .string s => '"' :: s ++ ['"']
    | _ => []

theorem standard_numbered : standard.Numbered := ⟨fun _ => rfl, fun _ => rfl, fun _ => rfl, fun _ => rfl⟩

end Rbatis

/-! ## Placeholders -/

/-- The marker of the numbered placeholders of Postgres. -/
def dollar : Marker := ⟨'$', [], by decide, by decide⟩

/-- The marker of the numbered placeholders of SQL Server. -/
def atP : Marker := ⟨'@', ['p'], by decide, by decide⟩

/-- The placeholders of a statement, from left to right: every `?`, or the maximal tokens `$n` or
`@pn`. -/
def placeholders : DriverType → Text → List Text
  | .none, _ => []
  | .mysql, s | .sqlite, s => (s.filter (· = '?')).map fun c => [c]
  | .postgres, s => tokens dollar s
  | .mssql, s => tokens atP s

end ChimesUtils
