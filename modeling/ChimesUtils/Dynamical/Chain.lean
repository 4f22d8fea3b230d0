import ChimesUtils.Dynamical.Wrapper

/-!
# Chains of builder calls

A `Chain` is a program of builder calls with the branching of `do_if`, `do_if_else` and `do_match`;
its executed calls are `Chain.calls`. Every call is a sequence of a few edits of the statement
(`Call.edits`, `Call.apply_eq_edits`), so a property of the edits is a property of every chain.

* `Edit.connect`: add a connective where one is allowed;
* `Edit.write`, `Edit.bind`: append text, or the placeholder of the next argument with the argument;
* `Edit.trim`, `Edit.trimEnd`, `Edit.trimTail`, `Edit.squeeze`: edit the text already built;
* `Edit.raw`: `push_sql` followed by one `push_arg` for each value.
-/

namespace ChimesUtils

open Lib

/-- A condition, connective, ordering, grouping, limit or formatting call. -/
inductive Call where
  | eq (column : Text) (obj : Bson)
  | ne (column : Text) (obj : Bson)
  | gt (column : Text) (obj : Bson)
  | ge (column : Text) (obj : Bson)
  | lt (column : Text) (obj : Bson)
  | le (column : Text) (obj : Bson)
  | between (column : Text) (min max : Bson)
  | notBetween (column : Text) (min max : Bson)
  | like (column : Text) (obj : Bson)
  | likeLeft (column : Text) (obj : Bson)
  | likeRight (column : Text) (obj : Bson)
  | notLike (column : Text) (obj : Bson)
  | isNull (column : Text)
  | isNotNull (column : Text)
  | inArray (column : Text) (obj : List Bson)
  | in_ (column : Text) (obj : List Bson)
  | notIn (column : Text) (obj : List Bson)
  | allEq (arg : Bson)
  | and
  | or
  | having (sqlHaving : Text)
  | orderBy (isAsc : Bool) (columns : List Text)
  | orderBys (columnAsc : List (Text × Bool))
  | groupBy (columns : List Text)
  | limit (limit : ℕ)
  | trimSpace
  | setFormats (formats : Text → Option Text)

namespace Call

variable (R : Rbatis)

/-- Run a call on a wrapper. -/
def apply : Call → DynamicWrapper → DynamicWrapper
  | .eq c v, w => w.eq R c v
  | .ne c v, w => w.ne R c v
  | .gt c v, w => w.gt R c v
  | .ge c v, w => w.ge R c v
  | .lt c v, w => w.lt R c v
  | .le c v, w => w.le R c v
  | .between c a b, w => w.between R c a b
  | .notBetween c a b, w => w.notBetween R c a b
  | .like c v, w => w.like R c v
  | .likeLeft c v, w => w.likeLeft R c v
  | .likeRight c v, w => w.likeRight R c v
  | .notLike c v, w => w.notLike R c v
  | .isNull c, w => w.isNull R c
  | .isNotNull c, w => w.isNotNull R c
  | .inArray c vs, w => w.inArray R c vs
  | .in_ c vs, w => w.in_ R c vs
  | .notIn c vs, w => w.notIn R c vs
  | .allEq v, w => w.allEq R v
  | .and, w => w.and R
  | .or, w => w.or R
  | .having h, w => w.having R h
  | .orderBy a cs, w => w.orderBy R a cs
  | .orderBys cs, w => w.orderBys R cs
  | .groupBy cs, w => w.groupBy R cs
  | .limit n, w => w.limit R n
  | .trimSpace, w => w.trimSpace
  | .setFormats f, w => w.setFormats f

end Call

/-! ## Chains -/

/-- A program of builder calls. -/
inductive Chain where
  | nil
  | call (c : Call) (next : Chain)
  | branch (test : Bool) (method otherwise next : Chain)

namespace Chain

variable (R : Rbatis)

/-- Run a chain on a wrapper. -/
def run : Chain → DynamicWrapper → DynamicWrapper
  | nil, w => w
  | call c next, w => next.run (c.apply R w)
  | branch test method otherwise next, w => next.run (w.doIfElse test method.run otherwise.run)

/-- `do_if`. -/
def doIf (test : Bool) (method next : Chain) : Chain := branch test method nil next

theorem run_doIf (test : Bool) (method next : Chain) (w : DynamicWrapper) :
    (doIf test method next).run R w = next.run R (w.doIf test (method.run R)) := rfl

/-- `do_match`. -/
def doMatch : List (Bool × Chain) → Chain → Chain
  | [], default => default
  | (test, case) :: cases, default => branch test case (doMatch cases default) nil

theorem run_doMatch (cases : List (Bool × Chain)) (default : Chain) (w : DynamicWrapper) :
    (doMatch cases default).run R w =
      w.doMatch (cases.map fun p => (p.1, p.2.run R)) (default.run R) := by
  induction cases with
  | nil => rfl
  | cons p cases ih =>
    rw [doMatch, run, run, DynamicWrapper.doIfElse, ih]
    rfl

/-- The calls a chain executes. -/
def calls : Chain → List Call
  | nil => []
  | call c next => c :: next.calls
  | branch test method otherwise next =>
    (if test then method.calls else otherwise.calls) ++ next.calls

/-- **A chain runs its executed calls in order.** -/
theorem run_eq_calls (ch : Chain) (w : DynamicWrapper) :
    ch.run R w = ch.calls.foldl (fun w c => c.apply R w) w := by
  induction ch generalizing w with
  | nil => rfl
  | call c next ih => exact ih _
  | branch test method otherwise next ihm iho ihn =>
    rw [run, ihn, calls, List.foldl_append, DynamicWrapper.doIfElse]
    congr 1
    split_ifs
    · exact ihm w
    · exact iho w

end Chain

/-! ## Edits -/

/-- An edit of the statement. -/
inductive Edit where
  | connect (keyword : Text)
  | write (t : Text)
  | bind (column : Text) (v : Bson)
  | trimEnd
  | trim
  | trimTail
  | squeeze
  | raw (t : Text) (vs : List Bson)
  | setFormats (formats : Text → Option Text)

namespace Edit

variable (R : Rbatis)

/-- Run an edit on a wrapper. -/
def apply : Edit → DynamicWrapper → DynamicWrapper
  | .connect k, w => w.connect R k
  | .write t, w => w.pushSql t
  | .bind c v, w => w.bindArg R c v
  | .trimEnd, w => { w with sql := ChimesUtils.trimEnd w.sql }
  | .trim, w => { w with sql := ChimesUtils.trim w.sql }
  | .trimTail, w => { w with sql := DynamicWrapper.trimTail R w.sql }
  | .squeeze, w => { w with sql := replace [' ', ' '] [' '] w.sql }
  | .raw t vs, w => vs.foldl DynamicWrapper.pushArg (w.pushSql t)
  | .setFormats f, w => w.setFormats f

/-- Run edits in order. -/
def applyAll (es : List Edit) (w : DynamicWrapper) : DynamicWrapper :=
  es.foldl (fun w e => e.apply R w) w

theorem applyAll_append (es fs : List Edit) (w : DynamicWrapper) :
    applyAll R (es ++ fs) w = applyAll R fs (applyAll R es w) := List.foldl_append

end Edit

namespace Call

variable (R : Rbatis)

/-- The edits of `and`. -/
def andEdit : Edit := .connect R.template.and.leftRightSpace

/-- A condition that writes a text and the placeholder of one argument. -/
def bindEdits (text column : Text) (v : Bson) : List Edit :=
  [andEdit R, .write text, .bind column v]

/-- The edits of one condition with a range operator. -/
def betweenEdits (op column : Text) (min max : Bson) : List Edit :=
  [andEdit R, .write (column ++ op), .bind column min,
    .write ([' '] ++ R.template.and.value ++ [' ']), .bind column max]

/-- The edits of the values of a membership list after the first one. -/
def inTailEdits (column : Text) (vs : List Bson) : List Edit :=
  vs.flatMap fun v => [.write [','], .write [' '], .bind column v, .write [' ']]

/-- The edits of one condition with a membership operator. -/
def inEdits (op column : Text) : List Bson → List Edit
  | [] => []
  | v :: vs => [andEdit R, .write (column ++ op), .write [' '], .bind column v, .write [' ']] ++
      inTailEdits column vs ++ [.write [')']]

/-- The edits of the entries of a document. -/
def allEqEdits : List (Text × Bson) → List Edit
  | [] => []
  | [(k, v)] => bindEdits R (k ++ " = ".toList) k v
  | (k, v) :: e :: map =>
    bindEdits R (k ++ " = ".toList) k v ++ [.write " and ".toList] ++ allEqEdits (e :: map)

/-- The edits that write a comma list. -/
def listEdits : List Text → List Edit
  | [] => []
  | [x] => [.write x]
  | x :: y :: xs => [.write x, .write [',']] ++ listEdits (y :: xs)

/-- A column with its direction. -/
def orderItem (c : Text × Bool) : Text :=
  c.1 ++ [' '] ++ if c.2 then R.template.asc.value else R.template.desc.value

/-- The edits of an ordering. -/
def orderEdits (columns : List (Text × Bool)) : List Edit :=
  if columns.isEmpty then [] else
    [.trimEnd, .trimTail, .write R.template.orderBy.leftRightSpace] ++
      listEdits (columns.map (orderItem R)) ++ [.write [' ']]

/-- The edits of a grouping. -/
def groupEdits (columns : List Text) : List Edit :=
  if columns.isEmpty then [] else
    [.trim, .trimTail, .write R.template.groupBy.leftRightSpace] ++ listEdits columns ++ [.write [' ']]

/-- The edits of a call. -/
def edits : Call → List Edit
  | .eq c v => bindEdits R (c ++ " = ".toList) c v
  | .ne c v => bindEdits R (c ++ " <> ".toList) c v
  | .gt c v => bindEdits R (c ++ " > ".toList) c v
  | .ge c v => bindEdits R (c ++ " >= ".toList) c v
  | .lt c v => bindEdits R (c ++ " < ".toList) c v
  | .le c v => bindEdits R (c ++ " <= ".toList) c v
  | .between c a b => betweenEdits R ([' '] ++ R.template.between.value ++ [' ']) c a b
  | .notBetween c a b => betweenEdits R
      ([' '] ++ R.template.not.value ++ [' '] ++ R.template.between.value ++ [' ']) c a b
  | .like c v | .likeLeft c v | .likeRight c v =>
    bindEdits R (c ++ ([' '] ++ R.template.like.value ++ [' '])) c
      (.string (DynamicWrapper.likeText R v ++ ['%']))
  | .notLike c v =>
    bindEdits R (c ++ ([' '] ++ R.template.not.value ++ [' '] ++ R.template.like.value ++ [' '])) c
      (.string (['%'] ++ DynamicWrapper.likeText R v ++ ['%']))
  | .isNull c => [andEdit R, .write c, .write R.template.is.leftSpace,
      .write R.template.null.leftSpace]
  | .isNotNull c => [andEdit R, .write c, .write R.template.is.leftSpace,
      .write R.template.not.leftSpace, .write R.template.null.leftSpace]
  | .inArray c vs | .in_ c vs => inEdits R ([' '] ++ R.template.in_.value ++ " (".toList) c vs
  | .notIn c vs => inEdits R
      ([' '] ++ R.template.not.value ++ [' '] ++ R.template.in_.value ++ " (".toList) c vs
  | .allEq (.document map) =>
    if map.isEmpty then [andEdit R]
    else [andEdit R, .write ['(']] ++ allEqEdits R map ++ [.write [')']]
  | .allEq _ => [andEdit R]
  | .and => [andEdit R]
  | .or => [.connect R.template.or.leftRightSpace]
  | .having h => [andEdit R, .write (R.template.having.value ++ [' '] ++ h)]
  | .orderBy a cs => orderEdits R (cs.map fun x => (x, a))
  | .orderBys cs => orderEdits R cs
  | .groupBy cs => groupEdits R cs
  | .limit n => [.write ([' '] ++ R.template.limit.value ++ [' ']), .write (decimal n), .write [' ']]
  | .trimSpace => [.squeeze]
  | .setFormats f => [.setFormats f]

/-! ### The loops as edits -/

theorem inLoop_cons (column : Text) (v : Bson) (vs : List Bson) (w : DynamicWrapper) :
    DynamicWrapper.inLoop R column (v :: vs) w = DynamicWrapper.inLoop R column vs
      ((((w.pushSql [' ']).bindArg R column v).pushSql [' ']).pushSql [',']) := by
  simp [DynamicWrapper.inLoop, DynamicWrapper.pushSql, DynamicWrapper.bindArg,
    DynamicWrapper.pushArg, DynamicWrapper.convertColumn, DynamicWrapper.doFormatColumn]

theorem popSql_inLoop (column : Text) (vs : List Bson) (w : DynamicWrapper) :
    (DynamicWrapper.inLoop R column vs (w.pushSql [','])).popSql =
      Edit.applyAll R (inTailEdits column vs) w := by
  induction vs generalizing w with
  | nil => simp [DynamicWrapper.inLoop, inTailEdits, Edit.applyAll, DynamicWrapper.pushSql,
      DynamicWrapper.popSql]
  | cons v vs ih =>
    rw [inLoop_cons, ih, inTailEdits, inTailEdits, List.flatMap_cons, Edit.applyAll_append]
    rfl

theorem inWith_eq_edits (op : Text) (w : DynamicWrapper) (column : Text) (vs : List Bson) :
    DynamicWrapper.inWith R op w column vs = Edit.applyAll R (inEdits R op column vs) w := by
  cases vs with
  | nil => rfl
  | cons v vs =>
    rw [DynamicWrapper.inWith, if_neg (by simp), inLoop_cons, popSql_inLoop, inEdits,
      Edit.applyAll_append, Edit.applyAll_append]
    rfl

theorem allEqLoop_eq_edits (len : ℕ) (map : List (Text × Bson)) (index : ℕ)
    (h : index + map.length = len) (w : DynamicWrapper) :
    DynamicWrapper.allEqLoop R len index map w = Edit.applyAll R (allEqEdits R map) w := by
  induction map generalizing index w with
  | nil => rfl
  | cons e map ih =>
    obtain ⟨k, v⟩ := e
    rw [List.length_cons] at h
    rcases map with _ | ⟨e, map⟩
    · rw [DynamicWrapper.allEqLoop, if_neg (by simp at h ⊢; omega)]
      rfl
    · rw [DynamicWrapper.allEqLoop, if_pos (by simp at h ⊢; omega), ih (index + 1) (by omega),
        allEqEdits, Edit.applyAll_append, Edit.applyAll_append]
      rfl

theorem allEq_eq_edits (w : DynamicWrapper) (v : Bson) :
    w.allEq R v = Edit.applyAll R (edits R (.allEq v)) w := by
  cases v with
  | document map =>
    rw [DynamicWrapper.allEq, edits]
    split_ifs
    · rfl
    · rw [allEqLoop_eq_edits R _ map 0 (Nat.zero_add _), Edit.applyAll_append, Edit.applyAll_append]
      rfl
  | _ => rfl

theorem listEdits_cons_cons (x y : Text) (xs : List Text) :
    listEdits (x :: y :: xs) = [.write x, .write [',']] ++ listEdits (y :: xs) := rfl

theorem orderLoop_eq_edits (len : ℕ) (columns : List (Text × Bool)) (index : ℕ)
    (h : index + columns.length = len) (w : DynamicWrapper) :
    DynamicWrapper.orderLoop R len index columns w =
      Edit.applyAll R (listEdits (columns.map (orderItem R))) w := by
  induction columns generalizing index w with
  | nil => rfl
  | cons c columns ih =>
    obtain ⟨x, isAsc⟩ := c
    rw [List.length_cons] at h
    rcases columns with _ | ⟨c, columns⟩
    · rw [DynamicWrapper.orderLoop, if_neg (by simp at h ⊢; omega)]
      rfl
    · rw [DynamicWrapper.orderLoop, if_pos (by simp at h ⊢; omega), ih (index + 1) (by omega),
        List.map_cons, List.map_cons, List.map_cons, listEdits_cons_cons, Edit.applyAll_append]
      rfl

theorem orderWith_eq_edits (w : DynamicWrapper) (columns : List (Text × Bool)) :
    w.orderWith R columns = Edit.applyAll R (orderEdits R columns) w := by
  rw [DynamicWrapper.orderWith, orderEdits]
  split_ifs
  · rfl
  · dsimp only
    rw [orderLoop_eq_edits R _ columns 0 (Nat.zero_add _), Edit.applyAll_append,
      Edit.applyAll_append]
    rfl

theorem groupLoop_eq_edits (len : ℕ) (columns : List Text) (index : ℕ)
    (h : index + columns.length = len) (w : DynamicWrapper) :
    DynamicWrapper.groupLoop len index columns w = Edit.applyAll R (listEdits columns) w := by
  induction columns generalizing index w with
  | nil => rfl
  | cons x columns ih =>
    rw [List.length_cons] at h
    rcases columns with _ | ⟨c, columns⟩
    · rw [DynamicWrapper.groupLoop, if_neg (by simp at h ⊢; omega)]
      rfl
    · rw [DynamicWrapper.groupLoop, if_pos (by simp at h ⊢; omega), ih (index + 1) (by omega),
        listEdits_cons_cons, Edit.applyAll_append]
      rfl

theorem groupBy_eq_edits (w : DynamicWrapper) (columns : List Text) :
    w.groupBy R columns = Edit.applyAll R (groupEdits R columns) w := by
  rw [DynamicWrapper.groupBy, groupEdits]
  split_ifs
  · rfl
  · dsimp only
    rw [groupLoop_eq_edits R _ columns 0 (Nat.zero_add _), Edit.applyAll_append,
      Edit.applyAll_append]
    rfl

/-- **Every call is its edits.** -/
theorem apply_eq_edits (c : Call) (w : DynamicWrapper) :
    c.apply R w = Edit.applyAll R (c.edits R) w := by
  cases c with
  | inArray c vs => exact inWith_eq_edits R _ w c vs
  | in_ c vs => exact inWith_eq_edits R _ w c vs
  | notIn c vs => exact inWith_eq_edits R _ w c vs
  | allEq v => exact allEq_eq_edits R w v
  | orderBy a cs => exact orderWith_eq_edits R w _
  | orderBys cs => exact orderWith_eq_edits R w cs
  | groupBy cs => exact groupBy_eq_edits R w cs
  | _ => rfl

end Call

/-- The edits of a chain. -/
def Chain.edits (R : Rbatis) (ch : Chain) : List Edit := ch.calls.flatMap (Call.edits R)

theorem Chain.run_eq_edits (R : Rbatis) (ch : Chain) (w : DynamicWrapper) :
    ch.run R w = Edit.applyAll R (ch.edits R) w := by
  rw [run_eq_calls, Chain.edits]
  induction ch.calls generalizing w with
  | nil => rfl
  | cons c cs ih =>
    rw [List.foldl_cons, List.flatMap_cons, Edit.applyAll_append, ih, Call.apply_eq_edits]

end ChimesUtils
