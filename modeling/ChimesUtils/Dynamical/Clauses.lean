import ChimesUtils.Dynamical.Chain
import ChimesUtils.Column

/-!
# The clauses after the conditions

The calls `group_by`, `having`, `order_by` or `order_bys`, and `limit` write the clauses of a statement
one after the other. `InClauses` is the grammar of such a statement. The method `having` calls `and`,
which finds the columns of the grouping at the end of the text and adds a connective:
**no** statement built this way is in the grammar (`not_inClauses`).

* `having_groupBy_sql`: the text up to the condition of `having`;
* `orderWith_sql`: the ordering drops letters of `where`, `and`, `or` from the end only.
-/

namespace ChimesUtils

open Lib

/-! ## The grammar -/

/-- The items with a comma between any two neighbours. -/
def commas (items : List Text) : Text := List.intercalate [','] items

/-- The tokens of a text in order, with white space around them. -/
def Spaced : List Text → Text → Prop
  | [], t => t.all isWhitespace = true
  | token :: tokens, t =>
    ∃ gap rest, gap.all isWhitespace = true ∧ Spaced tokens rest ∧ t = gap ++ token ++ rest

/-- The tokens of the clauses. -/
def clauseTokens (R : Rbatis) (columns : List Text) (h : Text) (items : List (Text × Bool)) (n : ℕ) :
    List Text :=
  R.template.groupBy.value :: columns.intersperse [','] ++
    R.template.having.value :: h :: R.template.orderBy.value ::
    (items.map (Call.orderItem R)).intersperse [','] ++ [R.template.limit.value, decimal n]

/-- Any text of conditions, and after it the clauses. The grammar does not insist on the white space
that separates two words. -/
def InClauses (R : Rbatis) (columns : List Text) (h : Text) (items : List (Text × Bool)) (n : ℕ)
    (sql : Text) : Prop :=
  ∃ conditions rest, Spaced (clauseTokens R columns h items n) rest ∧ sql = conditions ++ rest

/-- The items of an ordering call. -/
def Call.ordering : Call → Option (List (Text × Bool))
  | .orderBy isAsc columns => some (columns.map fun x => (x, isAsc))
  | .orderBys columnAsc => some columnAsc
  | _ => none

/-- The calls of the clauses. -/
def clauseCalls (columns : List Text) (h : Text) (order : Call) (n : ℕ) : List Call :=
  [.groupBy columns, .having h, order, .limit n]

/-! ## The text of the calls -/

section Written

variable (R : Rbatis)

theorem applyAll_listEdits (items : List Text) (w : DynamicWrapper) :
    Edit.applyAll R (Call.listEdits items) w = w.pushSql (commas items) := by
  induction items generalizing w with
  | nil => exact congrArg (fun s => { w with sql := s }) (List.append_nil w.sql).symm
  | cons x items ih =>
    cases items with
    | nil =>
      rw [commas, List.intercalate_singleton]
      rfl
    | cons y items =>
      rw [Call.listEdits_cons_cons, Edit.applyAll_append, ih, commas, commas,
        List.intercalate_cons_cons]
      simp only [Edit.applyAll, List.foldl_cons, List.foldl_nil, Edit.apply, DynamicWrapper.pushSql,
        List.append_assoc]

variable (w : DynamicWrapper)

theorem groupBy_sql {columns : List Text} (hne : columns ≠ []) :
    (w.groupBy R columns).sql = DynamicWrapper.trimTail R (trim w.sql) ++
      R.template.groupBy.leftRightSpace ++ commas columns ++ [' '] := by
  rw [Call.groupBy_eq_edits, Call.groupEdits, if_neg (by simpa using hne), Edit.applyAll_append,
    Edit.applyAll_append, applyAll_listEdits]
  rfl

theorem orderWith_sql {items : List (Text × Bool)} (hne : items ≠ []) :
    (w.orderWith R items).sql = DynamicWrapper.trimTail R (trimEnd w.sql) ++
      R.template.orderBy.leftRightSpace ++ commas (items.map (Call.orderItem R)) ++ [' '] := by
  rw [Call.orderWith_eq_edits, Call.orderEdits, if_neg (by simpa using hne), Edit.applyAll_append,
    Edit.applyAll_append, applyAll_listEdits]
  rfl

theorem exists_trimTail_eq (s : Text) : ∃ k, DynamicWrapper.trimTail R s ++ k = s ∧ ∀ c ∈ k,
    c ∈ R.template.or.leftSpace ++ (R.template.and.leftSpace ++ R.template.where_.leftSpace) := by
  obtain ⟨k₁, h₁, hk₁⟩ := exists_trimEndMatches_eq R.template.where_.leftSpace s
  obtain ⟨k₂, h₂, hk₂⟩ := exists_trimEndMatches_eq R.template.and.leftSpace
    (trimEndMatches R.template.where_.leftSpace s)
  obtain ⟨k₃, h₃, hk₃⟩ := exists_trimEndMatches_eq R.template.or.leftSpace
    (trimEndMatches R.template.and.leftSpace (trimEndMatches R.template.where_.leftSpace s))
  refine ⟨k₃ ++ (k₂ ++ k₁), ?_, fun c hc => ?_⟩
  · rw [DynamicWrapper.trimTail, ← List.append_assoc, h₃, ← List.append_assoc, h₂, h₁]
  · rw [List.mem_append, List.mem_append] at hc ⊢
    exact hc.imp (hk₃ c) fun hc => hc.imp (hk₂ c) (hk₁ c)

end Written

/-! ## The connective before `having` -/

section Having

variable {columns : List Text}

theorem exists_last_commas (hne : columns ≠ []) (hcol : ∀ c ∈ columns, IsColumn c) :
    ∃ r c, commas columns = r ++ [c] ∧ columnChar c = true := by
  induction columns with
  | nil => exact absurd rfl hne
  | cons x columns ih =>
    rw [List.forall_mem_cons] at hcol
    cases columns with
    | nil =>
      have hx := hcol.1.ne_nil
      refine ⟨x.dropLast, x.getLast hx, ?_, List.all_eq_true.mp hcol.1.1 _ (List.getLast_mem hx)⟩
      rw [List.dropLast_append_getLast, commas, List.intercalate_singleton]
    | cons y columns =>
      obtain ⟨r, c, hr, hc⟩ := ih (List.cons_ne_nil _ _) hcol.2
      refine ⟨x ++ [','] ++ r, c, ?_, hc⟩
      rw [commas, List.intercalate_cons_cons, ← commas, hr, ← List.append_assoc]

theorem commas_ne_keyword (hne : columns ≠ []) (hcol : ∀ c ∈ columns, IsPlainColumn c) {word : Text}
    (hword : word ∈ ["where".toList, "and".toList, "or".toList]) : commas columns ≠ word := by
  rintro rfl
  obtain ⟨x, columns, rfl⟩ := List.exists_cons_of_ne_nil hne
  cases columns with
  | nil =>
    rw [commas, List.intercalate_singleton] at hword
    exact (hcol x List.mem_cons_self).2 hword
  | cons y columns =>
    have hcomma : ',' ∈ commas (x :: y :: columns) := by
      rw [commas, List.intercalate_cons_cons]
      simp
    have hnone : ∀ word ∈ ["where".toList, "and".toList, "or".toList], ',' ∉ word := by decide
    exact hnone _ hword hcomma

theorem no_space_commas (hcol : ∀ c ∈ columns, IsColumn c) : ' ' ∉ commas columns := by
  induction columns with
  | nil => exact List.not_mem_nil
  | cons x columns ih =>
    rw [List.forall_mem_cons] at hcol
    cases columns with
    | nil =>
      rw [commas, List.intercalate_singleton]
      exact hcol.1.no_space
    | cons y columns =>
      rw [commas, List.intercalate_cons_cons, List.mem_append, List.mem_append]
      rintro ((h | h) | h)
      · exact hcol.1.no_space h
      · exact absurd h (by decide)
      · exact ih hcol.2 h

theorem notAllowAddAndOnEnd_commas {R : Rbatis} (hR : R.template.Standard) (hne : columns ≠ [])
    (hcol : ∀ c ∈ columns, IsPlainColumn c) {w : DynamicWrapper} {s : Text}
    (hw : w.sql = s ++ ' ' :: commas columns ++ [' ']) : w.notAllowAddAndOnEnd R = false := by
  have hcol' : ∀ c ∈ columns, IsColumn c := fun c hc => (hcol c hc).1
  obtain ⟨r, c, hr, hc⟩ := exists_last_commas hne hcol'
  have htrim : trimEnd w.sql = s ++ ' ' :: commas columns := by
    rw [hw, hr, ← List.cons_append, ← List.append_assoc]
    exact trimEnd_concat_space _ (columnChar_not_whitespace hc)
  have hword : ∀ word ∈ ["where".toList, "and".toList, "or".toList],
      ¬ ' ' :: word <:+ s ++ ' ' :: commas columns := by
    intro word hword hsuffix
    have hspace : ∀ word ∈ ["where".toList, "and".toList, "or".toList], ' ' ∉ word := by decide
    exact commas_ne_keyword hne hcol hword
      (eq_of_cons_isSuffix (hspace word hword) (no_space_commas hcol') hsuffix).symm
  have hchar : ∀ a, columnChar a = false → ¬ [a] <:+ s ++ ' ' :: commas columns := by
    intro a ha hsuffix
    rw [hr, ← List.cons_append, ← List.append_assoc] at hsuffix
    have heq := List.mem_singleton.mp (mem_of_isSuffix_concat (List.cons_ne_nil a []) hsuffix)
    rw [← heq, hc] at ha
    cases ha
  unfold DynamicWrapper.notAllowAddAndOnEnd
  rw [htrim, Bool.or_eq_false_iff]
  refine ⟨by simp, List.any_eq_false.mpr fun p hp => ?_⟩
  rw [endsWith, decide_eq_true_iff]
  obtain ⟨null, hT⟩ := hR.exists_words
  simp only [DynamicWrapper.stops, hT, List.mem_cons, List.not_mem_nil, or_false] at hp
  rcases hp with rfl | rfl | rfl | hp
  · exact hword "where".toList (by decide)
  · exact hword "and".toList (by decide)
  · exact hword "or".toList (by decide)
  · rcases hp with rfl | rfl | rfl | rfl | rfl | rfl | rfl | rfl | rfl | rfl | rfl | rfl | rfl <;>
      exact hchar _ (by decide)

/-- **The text up to the condition of `having`.** -/
theorem having_groupBy_sql {R : Rbatis} (hR : R.template.Standard) (hne : columns ≠ [])
    (hcol : ∀ c ∈ columns, IsPlainColumn c) (w : DynamicWrapper) (h : Text) :
    ((w.groupBy R columns).having R h).sql = DynamicWrapper.trimTail R (trim w.sql) ++
      " group by ".toList ++ commas columns ++ "  and having ".toList ++ h := by
  have hsql := groupBy_sql R w hne
  obtain ⟨null, hT⟩ := hR.exists_words
  rw [hT] at hsql
  have hblock : (w.groupBy R columns).notAllowAddAndOnEnd R = false := by
    refine notAllowAddAndOnEnd_commas hR hne hcol
      (s := DynamicWrapper.trimTail R (trim w.sql) ++ " group by".toList) ?_
    rw [hsql]
    simp [Template.words, Keyword.spaced]
  rw [DynamicWrapper.having, DynamicWrapper.and, DynamicWrapper.connect, hblock,
    if_neg Bool.false_ne_true, DynamicWrapper.pushSql, DynamicWrapper.pushSql, hsql, hT]
  simp [Template.words, Keyword.spaced]

end Having

/-! ## Without white space -/

section Strip

/-- A text without its white space. -/
def strip (s : Text) : Text := s.filter fun c => !isWhitespace c

@[simp] theorem strip_append (s t : Text) : strip (s ++ t) = strip s ++ strip t :=
  List.filter_append ..

theorem strip_eq_nil {s : Text} (h : s.all isWhitespace = true) : strip s = [] := by
  rw [strip, List.filter_eq_nil_iff]
  intro c hc
  rw [List.all_eq_true.mp h c hc]
  decide

theorem strip_trimEnd (s : Text) : strip (trimEnd s) = strip s := by
  unfold trimEnd
  induction s using List.reverseRecOn with
  | nil => rfl
  | append_singleton s c ih =>
    by_cases hc : isWhitespace c = true
    · rw [List.rdropWhile_concat_pos _ _ _ hc, ih, strip_append,
        strip_eq_nil (s := [c]) (by simpa using hc), List.append_nil]
    · rw [List.rdropWhile_concat_neg _ _ _ hc]

theorem Spaced.strip_eq {tokens : List Text} {t : Text} (h : Spaced tokens t) :
    strip t = strip tokens.flatten := by
  induction tokens generalizing t with
  | nil => exact strip_eq_nil h
  | cons token tokens ih =>
    obtain ⟨gap, rest, hgap, hrest, rfl⟩ := h
    rw [List.flatten_cons, strip_append, strip_append, strip_append, strip_eq_nil hgap, ih hrest,
      List.nil_append]

end Strip

/-! ## No statement is in the grammar -/

section Statement

variable {R : Rbatis} (hR : R.template.Standard) {columns : List Text} (hne : columns ≠ [])
  (hcol : ∀ c ∈ columns, IsPlainColumn c) {items : List (Text × Bool)} (hitems : items ≠ [])

include hR hne hcol hitems in
theorem clauseCalls_sql (h : Text) {order : Call} (horder : order.ordering = some items) (n : ℕ)
    (w : DynamicWrapper) :
    ((clauseCalls columns h order n).foldl (fun w c => c.apply R w) w).sql =
      DynamicWrapper.trimTail R (trimEnd (DynamicWrapper.trimTail R (trim w.sql) ++
        " group by ".toList ++ commas columns ++ "  and having ".toList ++ h)) ++
      " order by ".toList ++ commas (items.map (Call.orderItem R)) ++ "  limit ".toList ++ decimal n ++
      [' '] := by
  have happly : ∀ w : DynamicWrapper, order.apply R w = w.orderWith R items := by
    intro w
    cases order with
    | orderBy isAsc columns =>
      cases horder
      rfl
    | orderBys columnAsc =>
      cases horder
      rfl
    | _ => cases horder
  have hcalls : ((clauseCalls columns h order n).foldl (fun w c => c.apply R w) w) =
      (((w.groupBy R columns).having R h).orderWith R items).limit R n := by
    rw [clauseCalls, List.foldl_cons, List.foldl_cons, List.foldl_cons, happly]
    rfl
  obtain ⟨null, hT⟩ := hR.exists_words
  rw [hcalls, DynamicWrapper.limit, DynamicWrapper.pushSql, DynamicWrapper.pushSql,
    DynamicWrapper.pushSql, orderWith_sql R _ hitems, having_groupBy_sql hR hne hcol, hT]
  simp [Template.words, Keyword.spaced]

include hR in
theorem strip_clauseTokens (h : Text) (n : ℕ) :
    strip (clauseTokens R columns h items n).flatten =
      "groupby".toList ++ strip (commas columns) ++ ("having".toList ++ strip h) ++
      ("orderby".toList ++ strip (commas (items.map (Call.orderItem R))) ++ "limit".toList ++
        strip (decimal n)) := by
  have hgroup : strip "group by".toList = "groupby".toList := by decide
  have hhaving : strip "having".toList = "having".toList := by decide
  have horder : strip "order by".toList = "orderby".toList := by decide
  have hlimit : strip "limit".toList = "limit".toList := by decide
  obtain ⟨null, hT⟩ := hR.exists_words
  simp only [clauseTokens, hT, Template.words, Keyword.spaced, List.cons_append, List.flatten_cons,
    List.flatten_append, List.flatten_nil, List.append_nil, strip_append, hgroup, hhaving, horder,
    hlimit, List.append_assoc]
  rfl

theorem connective_left {x y g h k : Text} (hk : ∀ c ∈ k, c ∈ " or and where".toList)
    (heq : x ++ "groupby".toList ++ g ++ "having".toList ++ h ++ k =
      y ++ "groupby".toList ++ g ++ ("and".toList ++ "having".toList) ++ h) : False := by
  have hend : x ++ "groupby".toList ++ g ++ (("having".toList ++ h) ++ k) =
      y ++ "groupby".toList ++ g ++ "and".toList ++ ("having".toList ++ h) := by
    simpa only [List.append_assoc] using heq
  have hnil : k = [] := by
    by_contra hne
    have hv : 'v' ∈ k := mem_of_append_eq hne hend 'v' (by simp)
    exact absurd (hk 'v' hv) (by decide)
  rw [hnil, List.append_nil] at hend
  have hcut : y ++ (("groupby".toList ++ g) ++ "and".toList) = x ++ ("groupby".toList ++ g) := by
    simpa only [List.append_assoc] using (List.append_cancel_right hend).symm
  have hg : 'g' ∈ "and".toList := mem_of_append_eq (by decide) hcut 'g' (by simp)
  exact absurd hg (by decide)

include hR hne hcol hitems in
theorem clauseCalls_not_inClauses (h : Text) {order : Call} (horder : order.ordering = some items)
    (n : ℕ) (w : DynamicWrapper) :
    ¬ InClauses R columns h items n
      ((clauseCalls columns h order n).foldl (fun w c => c.apply R w) w).sql := by
  rintro ⟨conditions, rest, hrest, hsql⟩
  rw [clauseCalls_sql hR hne hcol hitems h horder] at hsql
  -- the white space is dropped on both sides, and the text from the ordering on is the same
  have hstrip := congrArg strip hsql
  have horderby : strip " order by ".toList = "orderby".toList := by decide
  have hlimit : strip "  limit ".toList = "limit".toList := by decide
  have hspace : strip [' '] = [] := by decide
  simp only [strip_append, hrest.strip_eq, strip_clauseTokens hR, horderby, hlimit, hspace,
    List.append_nil, ← List.append_assoc, List.append_cancel_right_eq] at hstrip
  -- what the ordering trimmed are letters of the three keywords
  obtain ⟨k, hk, hletters⟩ := exists_trimTail_eq R (trimEnd (DynamicWrapper.trimTail R (trim w.sql) ++
    " group by ".toList ++ commas columns ++ "  and having ".toList ++ h))
  have hwhole := congrArg strip hk
  have hgroup : strip " group by ".toList = "groupby".toList := by decide
  have hhaving : strip "  and having ".toList = "and".toList ++ "having".toList := by decide
  rw [strip_append, hstrip, strip_trimEnd] at hwhole
  simp only [strip_append, hgroup, hhaving] at hwhole
  refine connective_left (fun c hc => ?_) hwhole
  have hkc := hletters c (List.mem_of_mem_filter hc)
  rwa [hR.eq_words] at hkc

include hR hne hcol hitems in
/-- **No statement is in the grammar.** For every driver, every chain of calls, and after it a grouping
by columns, a condition of `having`, either ordering call and a limit: the connective that `having`
adds stands between the grouping and `having`. -/
theorem not_inClauses (d : DriverType) (ch : Chain) (h : Text) {order : Call}
    (horder : order.ordering = some items) (n : ℕ) :
    ¬ InClauses R columns h items n
      ((clauseCalls columns h order n).foldl (fun w c => c.apply R w) (ch.run R (.new d))).sql :=
  clauseCalls_not_inClauses hR hne hcol hitems h horder n _

end Statement

/-- Two columns on Postgres, in both directions. -/
theorem not_inClauses_postgres :
    ¬ InClauses Rbatis.standard ["t.dept".toList, "grade".toList] "count(1) > 2".toList
      [("t.dept".toList, true), ("grade".toList, false)] 10
      ((clauseCalls ["t.dept".toList, "grade".toList] "count(1) > 2".toList
        (.orderBys [("t.dept".toList, true), ("grade".toList, false)]) 10).foldl
          (fun w c => c.apply Rbatis.standard w)
          ((Chain.call (.eq "t.dept".toList (.int64 1)) (.call .or
            (.call (.isNull "grade".toList) .nil))).run Rbatis.standard (.new .postgres))).sql :=
  not_inClauses Template.standard_rbatis (by decide) (by decide) (by decide) .postgres _ _ rfl 10

/-- The statement of one condition, a grouping, `having`, an ordering and a limit. -/
theorem havingStatement_not_inClauses :
    ((clauseCalls [['a']] "count(1) > 2".toList (.orderBy true [['a']]) 5).foldl
      (fun w c => c.apply Rbatis.standard w)
      ((Chain.call (.eq ['a'] (.int64 1)) .nil).run Rbatis.standard (.new .mysql))).sql =
        "a = ? group by a  and having count(1) > 2 order by a asc  limit 5 ".toList ∧
    ¬ InClauses Rbatis.standard [['a']] "count(1) > 2".toList [(['a'], true)] 5
      "a = ? group by a  and having count(1) > 2 order by a asc  limit 5 ".toList := by
  have hsql : ((clauseCalls [['a']] "count(1) > 2".toList (.orderBy true [['a']]) 5).foldl
      (fun w c => c.apply Rbatis.standard w)
      ((Chain.call (.eq ['a'] (.int64 1)) .nil).run Rbatis.standard (.new .mysql))).sql =
        "a = ? group by a  and having count(1) > 2 order by a asc  limit 5 ".toList := by
    decide +kernel
  refine ⟨hsql, ?_⟩
  rw [← hsql]
  exact clauseCalls_not_inClauses Template.standard_rbatis (by decide) (by decide) (by decide) _ rfl 5 _

end ChimesUtils
