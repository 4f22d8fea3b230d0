import ChimesUtils.Dynamical.Chain

/-!
# Values and text

A value that is passed to the builder is bound to a placeholder and does not show in the text.

* `Operation`: every method of the builder that changes it, and `Operation.masked`: an operation with its
  values replaced by null;
* `Alike`: wrappers that differ in the values of their arguments only, and `Alike.apply_masked`: an
  operation and its mask keep wrappers alike;
* `sql_eq_of_masked_eq`: runs that differ in the values only build the same text.
-/

namespace ChimesUtils

open Lib

/-- A builder call, the linking of a text or a wrapper, or a change of the text or the arguments. -/
inductive Operation where
  | call (c : Call)
  | push (sql : Text) (args : List Bson)
  | pushWrapper (arg : DynamicWrapper)
  | pushSql (sql : Text)
  | setSql (sql : Text)
  | trimValue (source target : Text)
  | trimAnd
  | trimOr
  | trimAndOr
  | insertInto (tableName columns values : Text)
  | setDml (dml : Text)
  | pushArg (arg : Bson)
  | popArg
  | setArgs (v : Bson)

/-! ## Masks -/

/-- Values without what they are. -/
def maskAll (vs : List Bson) : List Bson := vs.map fun _ => .null

/-- The keys that `all_eq` writes. -/
def maskEntries : Bson → Bson
  | .document map => .document (map.map fun e => (e.1, .null))
  | _ => .document []

/-- An array as long as the one that `set_args` takes. -/
def maskArray : Bson → Bson
  | .array xs => .array (maskAll xs)
  | _ => .null

def Call.masked : Call → Call
  | .eq c _ => .eq c .null
  | .ne c _ => .ne c .null
  | .gt c _ => .gt c .null
  | .ge c _ => .ge c .null
  | .lt c _ => .lt c .null
  | .le c _ => .le c .null
  | .between c _ _ => .between c .null .null
  | .notBetween c _ _ => .notBetween c .null .null
  | .like c _ => .like c .null
  | .likeLeft c _ => .likeLeft c .null
  | .likeRight c _ => .likeRight c .null
  | .notLike c _ => .notLike c .null
  | .inArray c vs => .inArray c (maskAll vs)
  | .in_ c vs => .in_ c (maskAll vs)
  | .notIn c vs => .notIn c (maskAll vs)
  | .allEq v => .allEq (maskEntries v)
  | .isNull c => .isNull c
  | .isNotNull c => .isNotNull c
  | .and => .and
  | .or => .or
  | .having h => .having h
  | .orderBy a cs => .orderBy a cs
  | .orderBys cs => .orderBys cs
  | .groupBy cs => .groupBy cs
  | .limit n => .limit n
  | .trimSpace => .trimSpace
  | .setFormats f => .setFormats f

namespace Operation

/-- The operation with its values masked. Of a wrapper, the text and the number of arguments are
left. -/
def masked : Operation → Operation
  | .call c => .call c.masked
  | .push sql args => .push sql (maskAll args)
  | .pushWrapper arg => .push arg.sql (maskAll arg.args)
  | .pushArg _ => .pushArg .null
  | .setArgs v => .setArgs (maskArray v)
  | o => o

variable (R : Rbatis)

def apply : Operation → DynamicWrapper → DynamicWrapper
  | .call c, w => c.apply R w
  | .push sql args, w => w.push R sql args
  | .pushWrapper arg, w => w.pushWrapper R arg
  | .pushSql sql, w => w.pushSql sql
  | .setSql sql, w => w.setSql sql
  | .trimValue source target, w => w.trimValue source target
  | .trimAnd, w => w.trimAnd R
  | .trimOr, w => w.trimOr R
  | .trimAndOr, w => w.trimAndOr R
  | .insertInto tableName columns values, w => w.insertInto R tableName columns values
  | .setDml dml, w => w.setDml dml
  | .pushArg arg, w => w.pushArg arg
  | .popArg, w => w.popArg
  | .setArgs v, w => w.setArgs v

/-- Run operations in order. -/
def runAll (ops : List Operation) (w : DynamicWrapper) : DynamicWrapper :=
  ops.foldl (fun w o => o.apply R w) w

end Operation

def Edit.masked : Edit → Edit
  | .bind c _ => .bind c .null
  | .raw t vs => .raw t (maskAll vs)
  | e => e

/-! ## The edits of a masked call -/

section Edits

variable (R : Rbatis)

theorem masked_inTailEdits (column : Text) (vs : List Bson) :
    (Call.inTailEdits column (maskAll vs)).map Edit.masked =
      (Call.inTailEdits column vs).map Edit.masked := by
  induction vs with
  | nil => rfl
  | cons v vs ih =>
    rw [maskAll, List.map_cons, Call.inTailEdits, Call.inTailEdits, List.flatMap_cons,
      List.flatMap_cons, List.map_append, List.map_append]
    exact congrArg (_ ++ ·) ih

theorem masked_inEdits (op column : Text) (vs : List Bson) :
    (Call.inEdits R op column (maskAll vs)).map Edit.masked =
      (Call.inEdits R op column vs).map Edit.masked := by
  cases vs with
  | nil => rfl
  | cons v vs =>
    show (Call.inEdits R op column (.null :: maskAll vs)).map Edit.masked = _
    rw [Call.inEdits, Call.inEdits, List.map_append, List.map_append, List.map_append, List.map_append,
      masked_inTailEdits]
    rfl

theorem masked_allEqEdits (map : List (Text × Bson)) :
    (Call.allEqEdits R (map.map fun e => (e.1, .null))).map Edit.masked =
      (Call.allEqEdits R map).map Edit.masked := by
  induction map with
  | nil => rfl
  | cons e map ih =>
    obtain ⟨k, v⟩ := e
    cases map with
    | nil => rfl
    | cons e map =>
      rw [List.map_cons, List.map_cons, Call.allEqEdits, Call.allEqEdits, List.map_append,
        List.map_append, ← List.map_cons (f := fun e : Text × Bson => (e.1, Bson.null)), ih]
      rfl

theorem masked_edits (c : Call) :
    (c.masked.edits R).map Edit.masked = (c.edits R).map Edit.masked := by
  cases c with
  | inArray c vs | in_ c vs | notIn c vs => exact masked_inEdits R _ c vs
  | allEq v =>
    cases v with
    | document map =>
      cases map with
      | nil => rfl
      | cons e map =>
        show (Call.edits R (.allEq (.document _))).map Edit.masked = _
        rw [Call.edits, Call.edits, if_neg (by simp), if_neg (by simp), List.map_append, List.map_append,
          List.map_append, List.map_append, masked_allEqEdits]
    | _ => rfl
  | _ => rfl

end Edits

/-! ## Alike wrappers -/

/-- The wrappers differ in the values of their arguments only. -/
structure Alike (w w' : DynamicWrapper) : Prop where
  driverType : w.driverType = w'.driverType
  sql : w.sql = w'.sql
  length_args : w.args.length = w'.args.length
  formats : w.formats = w'.formats

namespace Alike

variable {R : Rbatis} {w w' w'' : DynamicWrapper}

theorem refl (w : DynamicWrapper) : Alike w w := ⟨rfl, rfl, rfl, rfl⟩

theorem symm (h : Alike w w') : Alike w' w :=
  ⟨h.driverType.symm, h.sql.symm, h.length_args.symm, h.formats.symm⟩

theorem trans (h : Alike w w') (h' : Alike w' w'') : Alike w w'' :=
  ⟨h.driverType.trans h'.driverType, h.sql.trans h'.sql, h.length_args.trans h'.length_args,
    h.formats.trans h'.formats⟩

theorem pushSql (h : Alike w w') (t : Text) : Alike (w.pushSql t) (w'.pushSql t) :=
  ⟨h.driverType, congrArg (· ++ t) h.sql, h.length_args, h.formats⟩

theorem convertColumn (h : Alike w w') (column : Text) :
    w.convertColumn R column = w'.convertColumn R column := by
  unfold DynamicWrapper.convertColumn DynamicWrapper.doFormatColumn
  rw [h.driverType, h.length_args, h.formats]

theorem foldl_pushArg (vs : List Bson) (w : DynamicWrapper) :
    vs.foldl DynamicWrapper.pushArg w = { w with args := w.args ++ vs } := by
  induction vs generalizing w with
  | nil => rw [List.append_nil, List.foldl_nil]
  | cons v vs ih =>
    rw [List.foldl_cons, ih, DynamicWrapper.pushArg, List.append_assoc]
    rfl

theorem raw (h : Alike w w') (t : Text) {vs vs' : List Bson} (hlen : vs.length = vs'.length) :
    Alike (vs.foldl DynamicWrapper.pushArg (w.pushSql t))
      (vs'.foldl DynamicWrapper.pushArg (w'.pushSql t)) := by
  rw [foldl_pushArg, foldl_pushArg]
  refine ⟨h.driverType, congrArg (· ++ t) h.sql, ?_, h.formats⟩
  show (w.args ++ vs).length = (w'.args ++ vs').length
  rw [List.length_append, List.length_append, h.length_args, hlen]

theorem bindArg (h : Alike w w') (column : Text) (v v' : Bson) :
    Alike (w.bindArg R column v) (w'.bindArg R column v') := by
  unfold DynamicWrapper.bindArg
  rw [h.convertColumn]
  have hlen : [v].length = [v'].length := rfl
  exact h.raw _ hlen

theorem mapSql (h : Alike w w') (f : Text → Text) :
    Alike { w with sql := f w.sql } { w' with sql := f w'.sql } :=
  ⟨h.driverType, congrArg f h.sql, h.length_args, h.formats⟩

theorem length_maskAll (vs : List Bson) : vs.length = (maskAll vs).length := (List.length_map _).symm

theorem edit_masked (h : Alike w w') (e : Edit) : Alike (e.apply R w) (e.masked.apply R w') := by
  cases e with
  | connect k =>
    show Alike (w.connect R k) (w'.connect R k)
    unfold DynamicWrapper.connect DynamicWrapper.notAllowAddAndOnEnd
    rw [h.sql]
    split_ifs
    · exact h
    · exact h.pushSql k
  | write t => exact h.pushSql t
  | bind c v => exact h.bindArg c v .null
  | trimEnd => exact h.mapSql ChimesUtils.trimEnd
  | trim => exact h.mapSql ChimesUtils.trim
  | trimTail => exact h.mapSql (DynamicWrapper.trimTail R)
  | squeeze => exact h.mapSql (replace [' ', ' '] [' '])
  | raw t vs => exact h.raw t (length_maskAll vs)
  | setFormats f => exact ⟨h.driverType, h.sql, h.length_args, rfl⟩

/-- **One edit.** -/
theorem apply_edit (h : Alike w w') {e e' : Edit} (he : e.masked = e'.masked) :
    Alike (e.apply R w) (e'.apply R w') :=
  (h.edit_masked e).trans (he ▸ ((refl w').edit_masked e').symm)

theorem applyAll (h : Alike w w') {es es' : List Edit} (he : es.map Edit.masked = es'.map Edit.masked) :
    Alike (Edit.applyAll R es w) (Edit.applyAll R es' w') := by
  induction es generalizing es' w w' with
  | nil =>
    rw [List.map_nil, eq_comm, List.map_eq_nil_iff] at he
    rw [he]
    exact h
  | cons e es ih =>
    obtain ⟨e', es', rfl, hhead, htail⟩ := List.map_eq_cons_iff.mp he.symm
    exact ih (h.apply_edit hhead.symm) htail.symm

theorem push (h : Alike w w') (sql : Text) {args args' : List Bson}
    (hlen : args.length = args'.length) : Alike (w.push R sql args) (w'.push R sql args') := by
  refine ⟨h.driverType, ?_, ?_, h.formats⟩
  · unfold DynamicWrapper.push
    rw [h.driverType, h.sql, h.length_args, hlen]
  · show (w.args ++ args).length = (w'.args ++ args').length
    rw [List.length_append, List.length_append, h.length_args, hlen]

theorem setArgs (h : Alike w w') {xs xs' : List Bson} (hlen : xs.length = xs'.length) :
    Alike (w.setArgs (.array xs)) (w'.setArgs (.array xs')) :=
  ⟨h.driverType, h.sql, hlen, h.formats⟩

/-- **One operation** and its mask. -/
theorem apply_masked (h : Alike w w') (o : Operation) : Alike (o.apply R w) (o.masked.apply R w') := by
  cases o with
  | call c =>
    show Alike (c.apply R w) (c.masked.apply R w')
    rw [Call.apply_eq_edits, Call.apply_eq_edits]
    exact h.applyAll (masked_edits R c).symm
  | push sql args => exact h.push sql (length_maskAll args)
  | pushWrapper arg => exact h.push arg.sql (length_maskAll arg.args)
  | pushSql sql => exact h.pushSql sql
  | setSql sql => exact h.mapSql fun _ => sql
  | trimValue source target => exact h.mapSql (replace source target)
  | trimAnd => exact h.mapSql fun s => DynamicWrapper.trimKeyword R.template.and (trim s)
  | trimOr => exact h.mapSql fun s => DynamicWrapper.trimKeyword R.template.or (trim s)
  | trimAndOr =>
    exact h.mapSql fun s =>
      DynamicWrapper.trimKeyword R.template.and (DynamicWrapper.trimKeyword R.template.and (trim s))
  | insertInto tableName columns values =>
    exact h.mapSql fun _ => (w.insertInto R tableName columns values).sql
  | setDml dml => exact ⟨h.driverType, h.sql, h.length_args, h.formats⟩
  | pushArg arg =>
    refine ⟨h.driverType, h.sql, ?_, h.formats⟩
    show (w.args ++ [arg]).length = (w'.args ++ [Bson.null]).length
    rw [List.length_append, List.length_append, h.length_args, List.length_singleton,
      List.length_singleton]
  | popArg =>
    refine ⟨h.driverType, h.sql, ?_, h.formats⟩
    show w.args.dropLast.length = w'.args.dropLast.length
    rw [List.length_dropLast, List.length_dropLast, h.length_args]
  | setArgs v =>
    cases v with
    | array xs => exact h.setArgs (length_maskAll xs)
    | _ => exact h

theorem apply_operation (h : Alike w w') {o o' : Operation} (ho : o.masked = o'.masked) :
    Alike (o.apply R w) (o'.apply R w') :=
  (h.apply_masked o).trans (ho ▸ ((refl w').apply_masked o').symm)

/-- **All operations.** -/
theorem runAll (h : Alike w w') {ops ops' : List Operation}
    (hops : ops.map Operation.masked = ops'.map Operation.masked) :
    Alike (Operation.runAll R ops w) (Operation.runAll R ops' w') := by
  induction ops generalizing ops' w w' with
  | nil =>
    rw [List.map_nil, eq_comm, List.map_eq_nil_iff] at hops
    rw [hops]
    exact h
  | cons o ops ih =>
    obtain ⟨o', ops', rfl, hhead, htail⟩ := List.map_eq_cons_iff.mp hops.symm
    exact ih (h.apply_operation hhead.symm) htail.symm

theorem masked_pushWrapper (h : Alike w w') :
    (Operation.pushWrapper w).masked = (Operation.pushWrapper w').masked := by
  have hargs : maskAll w.args = maskAll w'.args := by
    rw [maskAll, maskAll, List.map_const', List.map_const', h.length_args]
  rw [Operation.masked, Operation.masked, h.sql, hargs]

end Alike

/-- Wrappers that are built by two runs with one mask can be linked in place of each other. -/
theorem masked_pushWrapper_runAll (R : Rbatis) {ops ops' : List Operation}
    (h : ops.map Operation.masked = ops'.map Operation.masked) (w : DynamicWrapper) :
    (Operation.pushWrapper (Operation.runAll R ops w)).masked =
      (Operation.pushWrapper (Operation.runAll R ops' w)).masked :=
  ((Alike.refl w).runAll h).masked_pushWrapper

/-! ## Two runs -/

/-- **Values and text.** Two runs of the same operations that differ in the values only, with lists of
the same lengths, documents with the same keys, and pushed texts that are equal, build the same text and
the same number of arguments, for every driver. -/
theorem sql_eq_of_masked_eq (R : Rbatis) {ops ops' : List Operation}
    (h : ops.map Operation.masked = ops'.map Operation.masked) (w : DynamicWrapper) :
    (Operation.runAll R ops w).sql = (Operation.runAll R ops' w).sql ∧
      (Operation.runAll R ops w).args.length = (Operation.runAll R ops' w).args.length := by
  have halike := (Alike.refl w).runAll (R := R) h
  exact ⟨halike.sql, halike.length_args⟩

/-- A condition, a pattern, a pushed text and a linked wrapper, with the given values. -/
def valuedRun (a b c : Bson) : List Operation :=
  [.call (.eq ['a'] a), .call (.like ['b'] b), .push " and c in ($1, $2) and ".toList [c, a],
    .pushWrapper (Operation.runAll .standard [.call (.ne ['d'] c)] (.new .postgres))]

/-- A semicolon in the pattern stays out of the text. -/
theorem sql_eq_valuedRun :
    (Operation.runAll .standard (valuedRun (.int64 1) (.string ['x']) .null) (.new .postgres)).sql =
      (Operation.runAll .standard (valuedRun .null (.string [';']) (.boolean true))
        (.new .postgres)).sql := by
  have hmask : [Operation.call (.ne ['d'] .null)].map Operation.masked =
      [Operation.call (.ne ['d'] (.boolean true))].map Operation.masked := rfl
  have hlinked := masked_pushWrapper_runAll .standard hmask (.new .postgres)
  refine (sql_eq_of_masked_eq .standard ?_ _).1
  rw [valuedRun, valuedRun, List.map_cons, List.map_cons, List.map_cons, List.map_cons, hlinked]
  rfl

end ChimesUtils
