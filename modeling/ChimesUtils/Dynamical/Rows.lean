import ChimesUtils.Dynamical.Connectives
import ChimesUtils.Dynamical.Placeholders
import ChimesUtils.Lib.Where

/-!
# The rows that a wrapper selects

The text of a wrapper is read as a WHERE clause, its arguments are the values of the placeholders, and a
row is selected when every condition is true of it. A chain of condition calls without `or` is read back
as the conditions of its calls (`Chain.clause_run`).

* `placeholderValue`: which argument a placeholder stands for;
* `Call.tests`: the conditions that a call asks for;
* `Call.says_condition`, `says_started`, `says_fresh`: what the text of one call and of all calls says;
* `selects_membership`: `in_array` and `not_in` select the rows whose column is a member, or is not. A
  list without elements is no condition, so `in_array` then selects what was selected before.
-/

namespace ChimesUtils

open Lib

/-! ## Placeholders and their arguments -/

/-- The argument with a number that counts from one. -/
def numberedValue (args : List Bson) (digits : Text) : Option Bson :=
  match Nat.ofDigitChars 10 digits 0 with
  | 0 => none
  | i + 1 => if digits.all Char.isDigit then args[i]? else none

/-- The argument of the placeholder `word`, with `k` placeholders before it. -/
def placeholderValue (d : DriverType) (args : List Bson) (k : ℕ) (word : Text) : Option Bson :=
  match d, word with
  | .mysql, ['?'] | .sqlite, ['?'] => args[k]?
  | .postgres, '$' :: digits => numberedValue args digits
  | .mssql, '@' :: 'p' :: digits => numberedValue args digits
  | _, _ => none

/-- The arguments from index `n` on start with the values. -/
def Bound (args : List Bson) (n : ℕ) (vs : List Bson) : Prop := vs <+: args.drop n

section Placeholder

variable {R : Rbatis} {d : DriverType} {args vs : List Bson} {n : ℕ} {v : Bson}

theorem numberedValue_decimal (args : List Bson) (i : ℕ) :
    numberedValue args (decimal (i + 1)) = args[i]? := by
  have hdigits : (decimal (i + 1)).all Char.isDigit = true :=
    List.all_eq_true.mpr fun _ hc => isDigit_of_mem_decimal hc
  unfold numberedValue
  rw [Nat.ofDigitChars_ten_toDigits, hdigits]
  rfl

theorem placeholderValue_stmtConvert (hN : R.Numbered) (hd : d ≠ .none) (args : List Bson) (k : ℕ) :
    placeholderValue d args k (R.stmtConvert d k) = args[k]? := by
  cases d with
  | none => exact absurd rfl hd
  | mysql =>
    rw [hN.mysql]
    rfl
  | sqlite =>
    rw [hN.sqlite]
    rfl
  | postgres =>
    rw [hN.postgres]
    exact numberedValue_decimal args k
  | mssql =>
    rw [hN.mssql]
    exact numberedValue_decimal args k

theorem isWord_stmtConvert (hN : R.Numbered) (hd : d ≠ .none) (k : ℕ) : IsWord (R.stmtConvert d k) := by
  have hdigits : ∀ c ∈ decimal (k + 1), inWord c = true :=
    fun c hc => inWord_of_isAlphanum (Bool.or_eq_true_iff.mpr (.inr (isDigit_of_mem_decimal hc)))
  cases d with
  | none => exact absurd rfl hd
  | mysql =>
    rw [hN.mysql]
    decide
  | sqlite =>
    rw [hN.sqlite]
    decide
  | postgres =>
    rw [hN.postgres]
    exact ⟨List.cons_ne_nil _ _, List.forall_mem_cons.mpr ⟨by decide, hdigits⟩⟩
  | mssql =>
    rw [hN.mssql]
    exact ⟨List.cons_ne_nil _ _,
      List.forall_mem_cons.mpr ⟨by decide, List.forall_mem_cons.mpr ⟨by decide, hdigits⟩⟩⟩

theorem bound_zero (args : List Bson) : Bound args 0 args := List.prefix_rfl

theorem Bound.append {a b : List Bson} (h : Bound args n (a ++ b)) :
    Bound args n a ∧ Bound args (n + a.length) b := by
  obtain ⟨rest, hrest⟩ := h
  rw [List.append_assoc] at hrest
  refine ⟨⟨b ++ rest, hrest⟩, ⟨rest, ?_⟩⟩
  rw [← List.drop_drop, ← hrest, List.drop_left]

theorem Bound.cons (h : Bound args n (v :: vs)) : args[n]? = some v ∧ Bound args (n + 1) vs := by
  refine ⟨?_, (Bound.append (a := [v]) h).2⟩
  obtain ⟨rest, hrest⟩ := h
  have hget := congrArg (fun l => l[0]?) hrest
  rw [List.getElem?_drop] at hget
  exact hget.symm

end Placeholder

/-! ## The conditions of a call -/

/-- The condition of a list; a list without elements is no condition. -/
def membershipTests (negated : Bool) (c : Text) (vs : List Bson) : List (Test Bson) :=
  if vs.isEmpty then [] else [.within negated c vs]

/-- The conditions that a call asks for. -/
def Call.tests (R : Rbatis) : Call → List (Test Bson)
  | .eq c v => [.compare .eq c v]
  | .ne c v => [.compare .ne c v]
  | .gt c v => [.compare .gt c v]
  | .ge c v => [.compare .ge c v]
  | .lt c v => [.compare .lt c v]
  | .le c v => [.compare .le c v]
  | .between c min max => [.between false c min max]
  | .notBetween c min max => [.between true c min max]
  | .like c v | .likeLeft c v | .likeRight c v =>
    [.like false c (.string (DynamicWrapper.likeText R v ++ ['%']))]
  | .notLike c v => [.like true c (.string (['%'] ++ DynamicWrapper.likeText R v ++ ['%']))]
  | .isNull c => [.isNull false c]
  | .isNotNull c => [.isNull true c]
  | .inArray c vs | .in_ c vs => membershipTests false c vs
  | .notIn c vs => membershipTests true c vs
  | .allEq (.document map) => map.map fun e => .compare .eq e.1 e.2
  | _ => []

/-- A condition call or `and`. -/
def Call.conjoins (c : Call) : Bool := c.joins && c.effect != some .or

/-- The columns of a call are names. -/
def Call.Named (c : Call) : Prop := ∀ t ∈ c.texts, isName t = true

instance (c : Call) : Decidable c.Named :=
  inferInstanceAs (Decidable (∀ t ∈ c.texts, isName t = true))

section Says

variable {R : Rbatis} (hN : R.Numbered) {d : DriverType} (hd : d ≠ .none) {args : List Bson} {n : ℕ}

include hN hd in
theorem value_bound {v : Bson} {vs : List Bson} (h : Bound args n (v :: vs)) :
    placeholderValue d args n (R.stmtConvert d n) = some v := by
  rw [placeholderValue_stmtConvert hN hd]
  exact h.cons.1

include hN hd in
theorem gives_bound {vs : List Bson} (h : Bound args n vs) :
    Gives (placeholderValue d args) n ((vs.zipIdx n).map fun v => (R.stmtConvert d v.2, v.1)) := by
  induction vs generalizing n with
  | nil => trivial
  | cons v vs ih => exact ⟨value_bound hN hd h, ih h.cons.2⟩

include hN hd in
theorem says_operator {c : Text} {v : Bson} (o : Text) (op : Comparison) (hc : isName c = true)
    (ho : IsWord o) (hop : operator (V := Bson) c o = some (.comparing op c)) (hv : Bound args n [v]) :
    Says (placeholderValue d args) n 1 (c ++ ([' '] ++ o ++ [' ']) ++ R.stmtConvert d n)
      [.compare op c v] := by
  have hsays := says_compare hc ho hop (isWord_stmtConvert hN hd n) (value_bound hN hd hv)
  have htext : List.intercalate [' '] [c, o, R.stmtConvert d n] =
      c ++ ([' '] ++ o ++ [' ']) ++ R.stmtConvert d n := by
    simp [List.intercalate]
  rwa [htext] at hsays

include hN hd in
theorem says_membership (op : List Text) (negated : Bool) {c text : Text} {vs : List Bson}
    (htext : List.intercalate [' '] (c :: op) ++ " (".toList = c ++ text)
    (hc : isName c = true) (hop : ∀ w ∈ op, IsWord w)
    (hrun : ∀ (tests : List (Test Bson)) (depth : ℕ),
      op.foldlM (State.step (placeholderValue d args)) ⟨tests, depth, n, .column c⟩ =
        some ⟨tests, depth, n, .opening negated c⟩)
    (hne : vs ≠ []) (hv : Bound args n vs) :
    Says (placeholderValue d args) n vs.length (c ++ text ++ Call.membership R d n vs ++ [')'])
      (membershipTests negated c vs) := by
  have hsays := says_within hc hop hrun (by simpa using hne) ?_ (gives_bound hN hd hv)
  · have helements : elementText ((vs.zipIdx n).map fun v => (R.stmtConvert d v.2, v.1)) =
        Call.membership R d n vs := by
      rw [elementText, List.map_map]
      rfl
    rw [helements, List.length_map, List.length_zipIdx, List.map_map] at hsays
    have hvs : (vs.zipIdx n).map (Prod.snd ∘ fun v => (R.stmtConvert d v.2, v.1)) = vs :=
      List.zipIdx_map_fst n vs
    rw [hvs] at hsays
    rw [← htext, List.append_assoc, List.append_assoc, membershipTests, if_neg (by simpa using hne)]
    exact hsays
  · intro e he
    obtain ⟨v, -, rfl⟩ := List.mem_map.mp he
    exact isWord_stmtConvert hN hd v.2

include hN hd in
theorem says_equations {map : List (Text × Bson)} (hne : map ≠ [])
    (hnames : ∀ t ∈ map.map Prod.fst, isName t = true) (hv : Bound args n (map.map Prod.snd)) :
    Says (placeholderValue d args) n map.length (Call.equations R d n map)
      (map.map fun e => .compare .eq e.1 e.2) := by
  induction map generalizing n with
  | nil => exact absurd rfl hne
  | cons e map ih =>
    rw [List.map_cons, List.forall_mem_cons] at hnames
    obtain ⟨hfirst, hrest⟩ := Bound.append (a := [e.2]) hv
    have hsays : Says (placeholderValue d args) n 1 (e.1 ++ " = ".toList ++ R.stmtConvert d n)
        [.compare .eq e.1 e.2] := says_operator hN hd "=".toList .eq hnames.1 (by decide) rfl hfirst
    cases map with
    | nil =>
      rw [Call.equations, List.zipIdx_cons, List.zipIdx_nil, List.map_cons, List.map_nil,
        List.intercalate_singleton]
      exact hsays
    | cons e' map =>
      have hcons : Call.equations R d n (e :: e' :: map) = e.1 ++ " = ".toList ++ R.stmtConvert d n ++
          " and ".toList ++ Call.equations R d (n + 1) (e' :: map) := List.intercalate_cons_cons
      rw [hcons, List.length_cons, Nat.add_comm]
      exact hsays.and (ih (List.cons_ne_nil _ _) hnames.2 hrest)

omit hN hd in
theorem null_word (hR : R.template.Standard) :
    R.template.null.leftSpace = ' ' :: R.template.null.value ∧ IsWord R.template.null.value ∧
      isKeyword R.template.null.value "null".toList = true := by
  refine ⟨?_, ⟨hR.null_ne_nil, fun c hc => ?_⟩, ?_⟩
  · rw [hR.eq_words]
    rfl
  · exact inWord_of_isAlphanum (Bool.or_eq_true_iff.mpr (.inl (hR.isAlpha_null c hc)))
  · rw [isKeyword, hR.null, beq_self_eq_true]

include hN hd in
/-- **One call.** Its condition says what it asks for. -/
theorem Call.says_condition (hR : R.template.Standard) {c : Call} (hc : c.writes = true) (hname : c.Named)
    (hv : Bound args n (c.values R)) :
    Says (placeholderValue d args) n c.argCount (c.conditionText R d n) (c.tests R) := by
  have hslot : ∀ k, IsWord (R.stmtConvert d k) := isWord_stmtConvert hN hd
  obtain ⟨hspaced, hword, hnull⟩ := null_word hR
  cases c with
  | eq c v => exact says_operator hN hd "=".toList .eq (hname c (by simp [texts])) (by decide) rfl hv
  | ne c v => exact says_operator hN hd "<>".toList .ne (hname c (by simp [texts])) (by decide) rfl hv
  | gt c v => exact says_operator hN hd ">".toList .gt (hname c (by simp [texts])) (by decide) rfl hv
  | ge c v => exact says_operator hN hd ">=".toList .ge (hname c (by simp [texts])) (by decide) rfl hv
  | lt c v => exact says_operator hN hd "<".toList .lt (hname c (by simp [texts])) (by decide) rfl hv
  | le c v => exact says_operator hN hd "<=".toList .le (hname c (by simp [texts])) (by decide) rfl hv
  | between c min max =>
    have hsays := says_between (hname c (by simp [texts])) (hslot n) (value_bound hN hd hv)
      (hslot (n + 1)) (value_bound hN hd hv.cons.2)
    simpa [conditionText, argCount, tests, List.intercalate] using hsays
  | notBetween c min max =>
    have hsays := says_notBetween (hname c (by simp [texts])) (hslot n) (value_bound hN hd hv)
      (hslot (n + 1)) (value_bound hN hd hv.cons.2)
    simpa [conditionText, argCount, tests, List.intercalate] using hsays
  | like c v | likeLeft c v | likeRight c v =>
    have hsays := says_like (hname c (by simp [texts])) (hslot n) (value_bound hN hd hv)
    simpa [conditionText, argCount, tests, List.intercalate] using hsays
  | notLike c v =>
    have hsays := says_notLike (hname c (by simp [texts])) (hslot n) (value_bound hN hd hv)
    simpa [conditionText, argCount, tests, List.intercalate] using hsays
  | isNull c =>
    have hsays : Says (placeholderValue d args) n 0 _ _ :=
      says_isNull (hname c (by simp [texts])) hword hnull
    simpa [conditionText, argCount, tests, List.intercalate, hspaced] using hsays
  | isNotNull c =>
    have hsays : Says (placeholderValue d args) n 0 _ _ :=
      says_isNotNull (hname c (by simp [texts])) hword hnull
    simpa [conditionText, argCount, tests, List.intercalate, hspaced] using hsays
  | inArray c vs | in_ c vs =>
    exact says_membership hN hd ["in".toList] false (by simp [List.intercalate])
      (hname c (by simp [texts])) (by decide) (fun _ _ => rfl) (by simpa [writes] using hc) hv
  | notIn c vs =>
    exact says_membership hN hd ["not".toList, "in".toList] true (by simp [List.intercalate])
      (hname c (by simp [texts])) (by decide) (fun _ _ => rfl) (by simpa [writes] using hc) hv
  | allEq v =>
    cases v with
    | document map =>
      exact (says_equations hN hd (by simpa [writes] using hc) hname hv).group
    | _ => cases hc
  | _ => cases hc

/-! ## The conditions of a chain -/

theorem Call.nothing_of_not_writes {c : Call} (hc : c.writes = false) :
    c.tests R = [] ∧ (c.joins = true → c.values R = []) := by
  cases c with
  | inArray c vs | in_ c vs | notIn c vs =>
    have hvs : vs = [] := by simpa [writes] using hc
    rw [hvs]
    exact ⟨rfl, fun _ => rfl⟩
  | allEq v =>
    cases v with
    | document map =>
      have hmap : map = [] := by simpa [writes] using hc
      rw [hmap]
      exact ⟨rfl, fun _ => rfl⟩
    | _ => exact ⟨rfl, fun _ => rfl⟩
  | and | or | having | orderBy | orderBys | groupBy | limit | trimSpace | setFormats =>
    exact ⟨rfl, fun _ => rfl⟩
  | _ => cases hc

theorem Call.length_values {c : Call} (hc : c.writes = true) : (c.values R).length = c.argCount := by
  cases c with
  | allEq v =>
    cases v with
    | document map => exact List.length_map _
    | _ => cases hc
  | and | or | having | orderBy | orderBys | groupBy | limit | trimSpace | setFormats => cases hc
  | _ => rfl

theorem Call.conjoins_effect {c : Call} (hc : c.conjoins = true) :
    c.joins = true ∧ c.effect ≠ some .or := by
  rw [conjoins, Bool.and_eq_true, bne_iff_ne] at hc
  exact hc

include hN hd in
/-- **After a condition.** The pieces of the calls say what the calls ask for. -/
theorem says_started (hR : R.template.Standard) {calls : List Call} (hcalls : ∀ c ∈ calls, c.conjoins = true ∧ c.Named)
    {s : Text} {ts : List (Test Bson)} (hs : Says (placeholderValue d args) 0 n s ts)
    {g : Option Connective} (hg : g ≠ some .or) (hv : Bound args n (calls.flatMap (Call.values R))) :
    Says (placeholderValue d args) 0 (n + (calls.flatMap (Call.values R)).length)
      (s ++ piecesText (pieces R d Call.effect n g calls)) (ts ++ calls.flatMap (Call.tests R)) := by
  induction calls generalizing n s ts g with
  | nil =>
    rw [pieces, piecesText, List.flatMap_nil, List.flatMap_nil, List.flatMap_nil, List.append_nil,
      List.append_nil]
    exact hs
  | cons c calls ih =>
    rw [List.forall_mem_cons] at hcalls
    obtain ⟨hjoins, heffect⟩ := Call.conjoins_effect hcalls.1.1
    rw [List.flatMap_cons] at hv
    rw [List.flatMap_cons, List.flatMap_cons, pieces, List.length_append]
    by_cases hc : c.writes = true
    · have hlen := Call.length_values (R := R) hc
      have hword : g.getD .and = .and := by
        cases g with
        | none => rfl
        | some k =>
          cases k with
          | and => rfl
          | or => exact absurd rfl hg
      have hnow :
          Says (placeholderValue d args) (0 + n) c.argCount (c.conditionText R d n) (c.tests R) := by
        rw [Nat.zero_add]
        exact c.says_condition hN hd hR hc hcalls.1.2 hv.append.1
      have hrest := hv.append.2
      rw [hlen] at hrest
      have hsays := ih hcalls.2 (hs.and hnow) (Option.some_ne_none _).symm hrest
      rw [if_pos hc, hword, piecesText, List.flatMap_cons]
      rw [hlen, ← Nat.add_assoc]
      simp only [List.append_assoc] at hsays ⊢
      exact hsays
    · have hc' : c.writes = false := by simpa using hc
      obtain ⟨htests, hvalues⟩ := Call.nothing_of_not_writes (R := R) hc'
      rw [hvalues hjoins, List.nil_append] at hv
      have hg' : g.or c.effect ≠ some .or := by
        cases g with
        | none => exact heffect
        | some k => exact hg
      have hsays := ih hcalls.2 hs hg' hv
      rw [if_neg hc, htests, hvalues hjoins, List.length_nil, Nat.zero_add, List.nil_append]
      exact hsays

include hN hd in
/-- **From the start.** The calls ask for nothing, or their text says what they ask for. -/
theorem says_fresh (hR : R.template.Standard) {calls : List Call} (hcalls : ∀ c ∈ calls, c.conjoins = true ∧ c.Named)
    (g : Option Connective) (hv : Bound args 0 (calls.flatMap (Call.values R))) :
    (pieces R d Call.effect 0 g calls = [] ∧ calls.flatMap (Call.tests R) = []) ∨
      ∃ k, Says (placeholderValue d args) 0 k (joinText (pieces R d Call.effect 0 g calls))
        (calls.flatMap (Call.tests R)) := by
  induction calls generalizing g with
  | nil => exact Or.inl ⟨rfl, rfl⟩
  | cons c calls ih =>
    rw [List.forall_mem_cons] at hcalls
    obtain ⟨hjoins, -⟩ := Call.conjoins_effect hcalls.1.1
    rw [List.flatMap_cons] at hv
    rw [List.flatMap_cons, pieces]
    by_cases hc : c.writes = true
    · have hnow := c.says_condition hN hd hR hc hcalls.1.2 hv.append.1
      have hrest := hv.append.2
      rw [Call.length_values hc, Nat.zero_add] at hrest
      rw [if_pos hc, Nat.zero_add]
      exact Or.inr ⟨_, says_started hN hd hR hcalls.2 hnow (Option.some_ne_none _).symm hrest⟩
    · have hc' : c.writes = false := by simpa using hc
      obtain ⟨htests, hvalues⟩ := Call.nothing_of_not_writes (R := R) hc'
      rw [hvalues hjoins, List.nil_append] at hv
      rw [if_neg hc, htests, List.nil_append]
      exact ih hcalls.2 _ hv

end Says

/-! ## Selected rows -/

/-- The values of a database, with its order and its matching of patterns. -/
def sqlValues (lt like : Bson → Bson → Prop) : Values Bson := ⟨(· = .null), lt, like⟩

/-- The conditions of the statement, with the arguments in the place of the placeholders. -/
def DynamicWrapper.clause (w : DynamicWrapper) : Option (List (Test Bson)) :=
  parse (placeholderValue w.driverType w.args) w.sql

/-- The text is a WHERE clause, and all its conditions are true of the row. -/
def Selects (lt like : Bson → Bson → Prop) (w : DynamicWrapper) (row : Text → Bson) : Prop :=
  ∃ ts, w.clause = some ts ∧ ∀ t ∈ ts, t.Holds (sqlValues lt like) row

section Selected

variable {R : Rbatis} (hR : R.template.Standard) (hN : R.Numbered) {d : DriverType} (hd : d ≠ .none)
  {ch : Chain} (hcalls : ∀ call ∈ ch.calls, call.conjoins = true ∧ call.Named)

include hR hN hd hcalls in
/-- **A chain is read back.** Its text is the clause of the conditions that its calls ask for. -/
theorem Chain.clause_run :
    (ch.run R (.new d)).clause = some (ch.calls.flatMap (Call.tests R)) := by
  have hT : R.template.Plain := hR.plain
  have hrefines := Chain.refines hN hT hd ch
  have hargs : (ch.run R (.new d)).args = ch.calls.flatMap (Call.values R) :=
    hrefines.args.trans ch.args_draft
  have hjoins : ∀ c ∈ ch.calls, c.joins = true := fun c hc => (Call.conjoins_effect (hcalls c hc).1).1
  obtain ⟨tail, hnone, hcause, hsql⟩ := run_fresh hR hN hd hjoins (Holds.new d) none
  rw [← Chain.run_eq_calls] at hsql
  have htail : gapText tail = [] ∨ gapText tail = " and ".toList := by
    cases tail with
    | none => exact Or.inl rfl
    | some k =>
      cases k with
      | and => exact Or.inr rfl
      | or =>
        obtain ⟨c, hc, heffect⟩ := hcause .or rfl
        exact absurd heffect (Call.conjoins_effect (hcalls c hc).1).2
  unfold DynamicWrapper.clause
  rw [hrefines.driver, hargs, hsql]
  rcases says_fresh hN hd hR hcalls none (bound_zero _) with ⟨hnil, htests⟩ | ⟨k, hsays⟩
  · rw [hnil, hnone hnil, htests]
    exact parse_nil
  · obtain ⟨hplain, hconnective⟩ := parse_of_says hsays
    rcases htail with htail | htail
    · rw [htail, List.append_nil]
      exact hplain
    · rw [htail]
      exact hconnective

include hR hN hd hcalls in
theorem Chain.selects_run (lt like : Bson → Bson → Prop) (row : Text → Bson) :
    Selects lt like (ch.run R (.new d)) row ↔
      ∀ call ∈ ch.calls, ∀ t ∈ call.tests R, t.Holds (sqlValues lt like) row := by
  unfold Selects
  rw [Chain.clause_run hR hN hd hcalls]
  constructor
  · rintro ⟨_, ⟨⟩, hall⟩ call hcall t ht
    exact hall t (List.mem_flatMap_of_mem hcall ht)
  · intro hall
    refine ⟨_, rfl, fun t ht => ?_⟩
    obtain ⟨call, hcall, ht⟩ := List.mem_flatMap.mp ht
    exact hall call hcall t ht

/-- A chain and one call more. -/
def Chain.concat (ch : Chain) (c : Call) : Chain := doIf true ch (.call c .nil)

theorem Chain.calls_concat (ch : Chain) (c : Call) : (ch.concat c).calls = ch.calls ++ [c] := rfl

theorem Chain.run_concat (ch : Chain) (c : Call) (w : DynamicWrapper) :
    (ch.concat c).run R w = c.apply R (ch.run R w) := rfl

include hR hN hd hcalls in
theorem Chain.selects_apply {c : Call} (hc : c.conjoins = true ∧ c.Named) (lt like : Bson → Bson → Prop)
    (row : Text → Bson) :
    Selects lt like (c.apply R (ch.run R (.new d))) row ↔
      Selects lt like (ch.run R (.new d)) row ∧
        ∀ t ∈ c.tests R, t.Holds (sqlValues lt like) row := by
  have hconcat : ∀ call ∈ (ch.concat c).calls, call.conjoins = true ∧ call.Named := by
    rw [Chain.calls_concat, List.forall_mem_append, List.forall_mem_singleton]
    exact ⟨hcalls, hc⟩
  rw [← Chain.run_concat, Chain.selects_run hR hN hd hconcat, Chain.selects_run hR hN hd hcalls,
    Chain.calls_concat, List.forall_mem_append, List.forall_mem_singleton]

end Selected

/-! ## Membership -/

theorem holds_membershipTests (lt like : Bson → Bson → Prop) {row : Text → Bson} {c : Text}
    {vs : List Bson} (hvs : ∀ v ∈ vs, v ≠ .null) (hrow : row c ≠ .null) :
    ((∀ t ∈ membershipTests false c vs, t.Holds (sqlValues lt like) row) ↔ (vs ≠ [] → row c ∈ vs)) ∧
      ((∀ t ∈ membershipTests true c vs, t.Holds (sqlValues lt like) row) ↔ row c ∉ vs) := by
  unfold membershipTests
  by_cases hempty : vs = []
  · rw [hempty]
    simp
  · rw [if_neg (by simpa using hempty), if_neg (by simpa using hempty), List.forall_mem_singleton,
      List.forall_mem_singleton]
    constructor
    · refine Iff.trans ?_ (forall_prop_of_true hempty).symm
      constructor
      · rintro ⟨v, hv, -, -, heq⟩
        rw [heq]
        exact hv
      · intro hmem
        exact ⟨row c, hmem, hrow, hrow, rfl⟩
    · constructor
      · intro hall hmem
        exact (hall (row c) hmem).2.2 rfl
      · intro hnot v hv
        refine ⟨hrow, hvs v hv, fun heq => hnot ?_⟩
        rw [heq]
        exact hv

/-- **Membership.** For every driver and all chains of condition calls without `or`, among the rows with
a value in the column: `in_array` with some element selects those of the rows before whose column is a
member, and `not_in` those whose column is none. Without an element `in_array` selects what was selected
before. -/
theorem selects_membership {R : Rbatis} (hR : R.template.Standard) (hN : R.Numbered) {d : DriverType}
    (hd : d ≠ .none) {ch : Chain} (hcalls : ∀ call ∈ ch.calls, call.conjoins = true ∧ call.Named)
    {c : Text} (hc : isName c = true) {l : List Bson} (hl : ∀ v ∈ l, v ≠ .null)
    (lt like : Bson → Bson → Prop) :
    let w := ch.run R (.new d)
    (w.clause.isSome ∧ (w.inArray R c l).clause.isSome ∧ (w.notIn R c l).clause.isSome) ∧
    ∀ row : Text → Bson, row c ≠ .null →
      (l ≠ [] → (Selects lt like (w.inArray R c l) row ↔ Selects lt like w row ∧ row c ∈ l)) ∧
      (l = [] → (Selects lt like (w.inArray R c l) row ↔ Selects lt like w row)) ∧
      (Selects lt like (w.notIn R c l) row ↔ Selects lt like w row ∧ row c ∉ l) := by
  have hnamed : ∀ t ∈ [c], isName t = true := List.forall_mem_singleton.mpr hc
  have hclause : ∀ call : Call, call.conjoins = true ∧ call.Named →
      (call.apply R (ch.run R (.new d))).clause.isSome = true := by
    intro call hcall
    rw [← Chain.run_concat, Chain.clause_run hR hN hd]
    · rfl
    · rw [Chain.calls_concat, List.forall_mem_append, List.forall_mem_singleton]
      exact ⟨hcalls, hcall⟩
  have hin : (Call.inArray c l).conjoins = true ∧ (Call.inArray c l).Named := ⟨rfl, hnamed⟩
  have hnot : (Call.notIn c l).conjoins = true ∧ (Call.notIn c l).Named := ⟨rfl, hnamed⟩
  refine ⟨⟨?_, hclause (.inArray c l) hin, hclause (.notIn c l) hnot⟩, fun row hrow => ?_⟩
  · rw [Chain.clause_run hR hN hd hcalls]
    rfl
  have hselIn := Chain.selects_apply hR hN hd hcalls hin lt like row
  have hselNot := Chain.selects_apply hR hN hd hcalls hnot lt like row
  obtain ⟨hmember, hnone⟩ := holds_membershipTests lt like hl hrow
  refine ⟨fun hne => ?_, fun hempty => ?_, ?_⟩
  · exact hselIn.trans (and_congr_right' (hmember.trans (forall_prop_of_true hne)))
  · exact hselIn.trans (and_iff_left (hmember.mpr fun hne => absurd hempty hne))
  · exact hselNot.trans (and_congr_right' hnone)

/-- A comparison, a test for null and a document. -/
def threesChain : Chain :=
  .call (.eq "kind".toList (.int64 3)) <|
  .call (.isNotNull "day".toList) <|
  .call .and <|
  .call (.allEq (.document [("owner".toList, .int64 3), ("place".toList, .int64 3)])) .nil

/-- A row of threes is selected with `in_array` and not with `not_in`. -/
theorem selects_membership_threes :
    ((threesChain.run .standard (.new .postgres)).inArray .standard "id".toList [.int64 1, .int64 3]).sql =
      "kind = $1 and day is not NULL and (owner = $2 and place = $3) and id in ( $4 , $5 )".toList ∧
    Selects (fun _ _ => False) (fun _ _ => False) ((threesChain.run .standard (.new .postgres)).inArray
      .standard "id".toList [.int64 1, .int64 3]) (fun _ => .int64 3) ∧
    ¬ Selects (fun _ _ => False) (fun _ _ => False) ((threesChain.run .standard (.new .postgres)).notIn
      .standard "id".toList [.int64 1, .int64 3]) (fun _ => .int64 3) := by
  have hcalls : ∀ call ∈ threesChain.calls, call.conjoins = true ∧ call.Named := by
    simp only [threesChain, Chain.calls, List.forall_mem_cons]
    exact ⟨⟨rfl, by decide⟩, ⟨rfl, by decide⟩, ⟨rfl, by decide⟩, ⟨rfl, by decide⟩, List.forall_mem_nil _⟩
  have hrow : Selects (fun _ _ => False) (fun _ _ => False) (threesChain.run .standard (.new .postgres))
      (fun _ => .int64 3) := by
    rw [Chain.selects_run Template.standard_rbatis Rbatis.standard_numbered (by decide) hcalls]
    simp [threesChain, Chain.calls, Call.tests, Test.Holds, Known, Comparison.Holds, sqlValues]
  obtain ⟨hin, -, hnot⟩ := (selects_membership Template.standard_rbatis Rbatis.standard_numbered (d := .postgres) (by decide)
    hcalls (c := "id".toList) (by decide) (l := [.int64 1, .int64 3]) (by simp) (fun _ _ => False)
    (fun _ _ => False)).2 (fun _ => .int64 3) Bson.noConfusion
  refine ⟨by decide +kernel, (hin (List.cons_ne_nil _ _)).mpr ⟨hrow, by simp⟩, fun hsel => ?_⟩
  exact absurd (hnot.mp hsel).2 (by simp)

/-- With the empty list, a row is selected that has no member. -/
theorem not_selects_member_nil :
    ¬ (Selects (fun _ _ => False) (fun _ _ => False)
        ((DynamicWrapper.new .mysql).inArray .standard "id".toList []) (fun _ => .int64 5) ↔
      Selects (fun _ _ => False) (fun _ _ => False) (.new .mysql) (fun _ => .int64 5) ∧
        (Bson.int64 5) ∈ ([] : List Bson)) := by
  intro h
  have hall : Selects (fun _ _ => False) (fun _ _ => False)
      ((DynamicWrapper.new .mysql).inArray .standard "id".toList []) (fun _ => .int64 5) :=
    ⟨[], rfl, List.forall_mem_nil _⟩
  exact absurd (h.mp hall).2 List.not_mem_nil

end ChimesUtils
