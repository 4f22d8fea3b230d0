import ChimesUtils.Dynamical.Rbatis

/-!
# The dynamic SQL wrapper

`DynamicWrapper` collects the text of a statement and its arguments. Every condition method first
calls `and`, which adds the connective unless the text ends in one of `stops`, then writes the
column, the operator and the placeholder of the next argument index, and pushes the argument.

Families of methods that differ in an operator only are one definition with that operator:
`compare`, `betweenWith`, `likeWith`, `inWith`, `orderWith`.
-/

namespace ChimesUtils

open Lib

/-- `DynamicWrapper`. -/
structure DynamicWrapper where
  driverType : DriverType
  dml : Text
  sql : Text
  args : List Bson
  formats : Text → Option Text

namespace DynamicWrapper

variable (R : Rbatis)

def new (driverType : DriverType) : DynamicWrapper :=
  ⟨driverType, "where".toList, [], [], fun _ => none⟩

def trimValue (w : DynamicWrapper) (source target : Text) : DynamicWrapper :=
  { w with sql := replace source target w.sql }

def setFormats (w : DynamicWrapper) (formats : Text → Option Text) : DynamicWrapper :=
  { w with formats := formats }

def setDml (w : DynamicWrapper) (dml : Text) : DynamicWrapper := { w with dml := dml }

/-- The text `push` appends: every placeholder of `sql` in turn, replaced by the one `offset`
places on. -/
def pushLoop (driverType : DriverType) (offset n : ℕ) (sql : Text) : Text :=
  (List.range n).foldl (fun newSql i =>
    replace (R.stmtConvert driverType i) (R.stmtConvert driverType (i + offset)) newSql) sql

def push (w : DynamicWrapper) (sql : Text) (args : List Bson) : DynamicWrapper :=
  let newSql := match w.driverType with
    | .postgres | .mssql => pushLoop R w.driverType w.args.length args.length sql
    | .none | .mysql | .sqlite => sql
  { w with sql := w.sql ++ newSql, args := w.args ++ args }

def pushWrapper (w arg : DynamicWrapper) : DynamicWrapper := w.push R arg.sql arg.args

def doIf (w : DynamicWrapper) (test : Bool) (method : DynamicWrapper → DynamicWrapper) :
    DynamicWrapper := if test then method w else w

def doIfElse (w : DynamicWrapper) (test : Bool) (methodIf methodElse : DynamicWrapper → DynamicWrapper) :
    DynamicWrapper := if test then methodIf w else methodElse w

def doMatch (w : DynamicWrapper) : List (Bool × (DynamicWrapper → DynamicWrapper)) →
    (DynamicWrapper → DynamicWrapper) → DynamicWrapper
  | [], default => default w
  | (test, case) :: cases, default => if test then case w else w.doMatch cases default

def setSql (w : DynamicWrapper) (sql : Text) : DynamicWrapper := { w with sql := sql }

def pushSql (w : DynamicWrapper) (sql : Text) : DynamicWrapper := { w with sql := w.sql ++ sql }

/-- `self.sql.pop()`. -/
def popSql (w : DynamicWrapper) : DynamicWrapper := { w with sql := w.sql.dropLast }

/-- `set_args`, on the serialized slice. -/
def setArgs (w : DynamicWrapper) (v : Bson) : DynamicWrapper :=
  match v with
  | .array xs => { w with args := xs }
  | _ => w

def pushArg (w : DynamicWrapper) (arg : Bson) : DynamicWrapper := { w with args := w.args ++ [arg] }

def popArg (w : DynamicWrapper) : DynamicWrapper := { w with args := w.args.dropLast }

/-! ## Connectives -/

/-- The texts after which no connective is added. -/
def stops : List Text :=
  [R.template.where_.leftSpace, R.template.and.leftSpace, R.template.or.leftSpace,
    ['('], [','], ['='], ['+'], ['-'], ['*'], ['/'], ['%'], ['^'], ['>'], ['<'], ['&'], ['|']]

def notAllowAddAndOnEnd (w : DynamicWrapper) : Bool :=
  let sql := trimEnd w.sql
  sql.isEmpty || (stops R).any (endsWith sql)

/-- Add a connective where one is allowed. -/
def connect (keyword : Text) (w : DynamicWrapper) : DynamicWrapper :=
  if w.notAllowAddAndOnEnd R then w else w.pushSql keyword

def and (w : DynamicWrapper) : DynamicWrapper := w.connect R R.template.and.leftRightSpace

def or (w : DynamicWrapper) : DynamicWrapper := w.connect R R.template.or.leftRightSpace

def having (w : DynamicWrapper) (sqlHaving : Text) : DynamicWrapper :=
  (w.and R).pushSql (R.template.having.value ++ [' '] ++ sqlHaving)

/-! ## Conditions -/

def doFormatColumn (w : DynamicWrapper) (column data : Text) : Text :=
  match w.formats column with
  | some source => replace ['{', '}'] data source
  | none => data

/-- The formatted placeholder of the next argument. -/
def convertColumn (w : DynamicWrapper) (column : Text) : Text :=
  w.doFormatColumn column (R.stmtConvert w.driverType w.args.length)

/-- Write the placeholder of the next argument and push the argument. -/
def bindArg (w : DynamicWrapper) (column : Text) (v : Bson) : DynamicWrapper :=
  (w.pushSql (w.convertColumn R column)).pushArg v

/-- A column, an operator and one argument. -/
def compare (op : Text) (w : DynamicWrapper) (column : Text) (obj : Bson) : DynamicWrapper :=
  ((w.and R).pushSql (column ++ op)).bindArg R column obj

def eq : DynamicWrapper → Text → Bson → DynamicWrapper := compare R " = ".toList

def ne : DynamicWrapper → Text → Bson → DynamicWrapper := compare R " <> ".toList

def gt : DynamicWrapper → Text → Bson → DynamicWrapper := compare R " > ".toList

def ge : DynamicWrapper → Text → Bson → DynamicWrapper := compare R " >= ".toList

def lt : DynamicWrapper → Text → Bson → DynamicWrapper := compare R " < ".toList

def le : DynamicWrapper → Text → Bson → DynamicWrapper := compare R " <= ".toList

/-- The loop of `all_eq`, at position `index` of `len` entries. -/
def allEqLoop (len : ℕ) : ℕ → List (Text × Bson) → DynamicWrapper → DynamicWrapper
  | _, [], w => w
  | index, (k, v) :: map, w =>
    let w := w.eq R k v
    if index + 1 ≠ len then allEqLoop len (index + 1) map (w.pushSql " and ".toList)
    else allEqLoop len index map w

/-- `all_eq`, on the serialized argument. -/
def allEq (w : DynamicWrapper) (v : Bson) : DynamicWrapper :=
  let w := w.and R
  match v with
  | .document map =>
    if map.isEmpty then w
    else (allEqLoop R map.length 0 map (w.pushSql ['('])).pushSql [')']
  | _ => w

/-- A column and a range operator with two arguments. -/
def betweenWith (op : Text) (w : DynamicWrapper) (column : Text) (min max : Bson) : DynamicWrapper :=
  let w := ((w.and R).pushSql (column ++ op)).bindArg R column min
  (w.pushSql ([' '] ++ R.template.and.value ++ [' '])).bindArg R column max

def between : DynamicWrapper → Text → Bson → Bson → DynamicWrapper :=
  betweenWith R ([' '] ++ R.template.between.value ++ [' '])

def notBetween : DynamicWrapper → Text → Bson → Bson → DynamicWrapper :=
  betweenWith R ([' '] ++ R.template.not.value ++ [' '] ++ R.template.between.value ++ [' '])

/-- The text a pattern is built from: a string as it is, any other value as it displays. -/
def likeText (v : Bson) : Text := v.asStr.getD (R.display v)

/-- A column, a pattern operator and the pattern made of the value. -/
def likeWith (op : Text) (pattern : Text → Text) (w : DynamicWrapper) (column : Text) (obj : Bson) :
    DynamicWrapper :=
  ((w.and R).pushSql (column ++ op)).bindArg R column (.string (pattern (likeText R obj)))

def like : DynamicWrapper → Text → Bson → DynamicWrapper :=
  likeWith R ([' '] ++ R.template.like.value ++ [' ']) fun s => s ++ ['%']

def likeLeft : DynamicWrapper → Text → Bson → DynamicWrapper :=
  likeWith R ([' '] ++ R.template.like.value ++ [' ']) fun s => s ++ ['%']

def likeRight : DynamicWrapper → Text → Bson → DynamicWrapper :=
  likeWith R ([' '] ++ R.template.like.value ++ [' ']) fun s => s ++ ['%']

def notLike : DynamicWrapper → Text → Bson → DynamicWrapper :=
  likeWith R ([' '] ++ R.template.not.value ++ [' '] ++ R.template.like.value ++ [' '])
    fun s => ['%'] ++ s ++ ['%']

def isNull (w : DynamicWrapper) (column : Text) : DynamicWrapper :=
  (((w.and R).pushSql column).pushSql R.template.is.leftSpace).pushSql R.template.null.leftSpace

def isNotNull (w : DynamicWrapper) (column : Text) : DynamicWrapper :=
  ((((w.and R).pushSql column).pushSql R.template.is.leftSpace).pushSql
    R.template.not.leftSpace).pushSql R.template.null.leftSpace

/-- The loop of `in_array`: one placeholder and a comma for each value. -/
def inLoop (column : Text) : List Bson → DynamicWrapper → DynamicWrapper
  | [], w => w
  | x :: xs, w =>
    let convertColumn := w.convertColumn R column
    inLoop column xs
      (((w.pushSql ([' '] ++ convertColumn ++ [' '])).pushSql [',']).pushArg x)

/-- A column and a membership operator; the last comma is popped before the bracket closes. -/
def inWith (op : Text) (w : DynamicWrapper) (column : Text) (obj : List Bson) : DynamicWrapper :=
  if obj.isEmpty then w
  else (inLoop R column obj ((w.and R).pushSql (column ++ op))).popSql.pushSql [')']

def inArray : DynamicWrapper → Text → List Bson → DynamicWrapper :=
  inWith R ([' '] ++ R.template.in_.value ++ " (".toList)

def in_ (w : DynamicWrapper) (column : Text) (obj : List Bson) : DynamicWrapper :=
  w.inArray R column obj

def notIn : DynamicWrapper → Text → List Bson → DynamicWrapper :=
  inWith R ([' '] ++ R.template.not.value ++ [' '] ++ R.template.in_.value ++ " (".toList)

/-! ## Ordering, grouping and trimming -/

/-- Drop the keywords `where`, `and`, `or` from the end of a text, in this order. -/
def trimTail (s : Text) : Text :=
  trimEndMatches R.template.or.leftSpace
    (trimEndMatches R.template.and.leftSpace (trimEndMatches R.template.where_.leftSpace s))

/-- The loop of `order_by`, at position `index` of `len` columns. -/
def orderLoop (len : ℕ) : ℕ → List (Text × Bool) → DynamicWrapper → DynamicWrapper
  | _, [], w => w
  | index, (x, isAsc) :: columns, w =>
    let w := w.pushSql
      (x ++ [' '] ++ if isAsc then R.template.asc.value else R.template.desc.value)
    if index + 1 ≠ len then orderLoop len (index + 1) columns (w.pushSql [','])
    else orderLoop len index columns w

/-- Order by columns, each with its direction. -/
def orderWith (w : DynamicWrapper) (columns : List (Text × Bool)) : DynamicWrapper :=
  if columns.isEmpty then w
  else
    let w := { w with sql := trimTail R (trimEnd w.sql) }
    (orderLoop R columns.length 0 columns (w.pushSql R.template.orderBy.leftRightSpace)).pushSql [' ']

def orderBy (w : DynamicWrapper) (isAsc : Bool) (columns : List Text) : DynamicWrapper :=
  w.orderWith R (columns.map fun x => (x, isAsc))

def orderBys (w : DynamicWrapper) (columnAsc : List (Text × Bool)) : DynamicWrapper :=
  w.orderWith R columnAsc

/-- The loop of `group_by`, at position `index` of `len` columns. -/
def groupLoop (len : ℕ) : ℕ → List Text → DynamicWrapper → DynamicWrapper
  | _, [], w => w
  | index, x :: columns, w =>
    let w := w.pushSql x
    if index + 1 ≠ len then groupLoop len (index + 1) columns (w.pushSql [','])
    else groupLoop len index columns w

def groupBy (w : DynamicWrapper) (columns : List Text) : DynamicWrapper :=
  if columns.isEmpty then w
  else
    let w := { w with sql := trimTail R (trim w.sql) }
    (groupLoop columns.length 0 columns (w.pushSql R.template.groupBy.leftRightSpace)).pushSql [' ']

def trimSpace (w : DynamicWrapper) : DynamicWrapper :=
  { w with sql := replace [' ', ' '] [' '] w.sql }

/-- One pass over a text: drop the keyword from its start and from its end. -/
def trimKeyword (k : Keyword) (s : Text) : Text :=
  trimEndMatches k.leftSpace (trimStartMatches k.rightSpace s)

def trimAnd (w : DynamicWrapper) : DynamicWrapper :=
  { w with sql := trimKeyword R.template.and (trim w.sql) }

def trimOr (w : DynamicWrapper) : DynamicWrapper :=
  { w with sql := trimKeyword R.template.or (trim w.sql) }

def trimAndOr (w : DynamicWrapper) : DynamicWrapper :=
  { w with sql := trimKeyword R.template.and (trimKeyword R.template.and (trim w.sql)) }

def insertInto (w : DynamicWrapper) (tableName columns values : Text) : DynamicWrapper :=
  { w with sql := R.template.insertInto.value ++ [' '] ++ tableName ++ " (".toList ++ columns ++
      ") ".toList ++ R.template.values.value ++ " (".toList ++ values ++ [')'] }

def limit (w : DynamicWrapper) (limit : ℕ) : DynamicWrapper :=
  ((w.pushSql ([' '] ++ R.template.limit.value ++ [' '])).pushSql (decimal limit)).pushSql [' ']

end DynamicWrapper

end ChimesUtils
