import ChimesUtils.Lib.Identifier
import ChimesUtils.Lib.Rewrite
import ChimesUtils.Search.CommonSearch

/-!
# The text of a search

The methods of the wrapper write the column as it is given, and placeholders for the values
(`TextLaws`). The values of a request leave no trace in the text; its field names are part of it.

* `TaintedText`: a text that says which of its characters a request has written;
* `searchText`: the text of a search, tainted (`intoWrapperLoop_sql`);
* `shaped_iff`: it is a conjunction of conditions on columns, one for each entry with a known operator,
  with nothing of the request outside of the columns, just when the fields of these entries are columns.
-/

namespace ChimesUtils

open Lib

/-- A text in which each character says whether a string of the request has written it. -/
abbrev TaintedText := List (Char × Bool)

namespace TaintedText

def ofRequest (s : Text) : TaintedText := s.map fun c => (c, true)

def ofProgram (s : Text) : TaintedText := s.map fun c => (c, false)

def text (t : TaintedText) : Text := t.map Prod.fst

@[simp] theorem text_ofRequest (s : Text) : (ofRequest s).text = s := by
  simp [text, ofRequest, Function.comp_def]

@[simp] theorem text_ofProgram (s : Text) : (ofProgram s).text = s := by
  simp [text, ofProgram, Function.comp_def]

theorem text_append (s t : TaintedText) : (s ++ t).text = s.text ++ t.text := List.map_append

end TaintedText

open TaintedText

/-- What a wrapper writes after `and`: the column as it is given, and a text that starts with a space and
depends on the method, on the number of values bound before and on that of its own. The connective
comes from the second condition on. -/
structure TextLaws {W F : Type} (R : RbatisWrapper W F) (sql : W → Text) (argc : W → ℕ)
    (tail : WrapperMethod → ℕ → ℕ → Text) : Prop where
  space : ∀ m n k, ∃ rest, tail m n k = ' ' :: rest
  counts : ∀ m wp column vs, argc (R.call m (R.and wp) column vs) = argc wp + vs.length
  first : ∀ m wp column vs, sql wp = [] →
    sql (R.call m (R.and wp) column vs) = column ++ tail m (argc wp) vs.length
  next : ∀ m wp column vs m' column' vs',
    sql (R.call m' (R.and (R.call m (R.and wp) column vs)) column' vs') =
      sql (R.call m (R.and wp) column vs) ++ " and ".toList ++
        (column' ++ tail m' (argc (R.call m (R.and wp) column vs)) vs'.length)

section Tails

variable {F : Type} (P : Parsers F) (tail : WrapperMethod → ℕ → ℕ → Text)

/-- What follows the columns in the conditions of the entries. -/
def entryTails : ℕ → List (SearchField × SearchOp) → List Text
  | _, [] => []
  | n, (f, op) :: entries =>
    tail op.method n ((f.values P op).getD []).length ::
      entryTails (n + ((f.values P op).getD []).length) entries

theorem length_entryTails (n : ℕ) (entries : List (SearchField × SearchOp)) :
    (entryTails P tail n entries).length = entries.length := by
  induction entries generalizing n with
  | nil => rfl
  | cons e entries ih => rw [entryTails, List.length_cons, List.length_cons, ih]

end Tails

/-- The conditions with the given columns, joined with `and`. The program writes everything but the
columns. -/
def conjunction (columns : List TaintedText) (tails : List Text) : TaintedText :=
  (ofProgram " and ".toList).intercalate (List.zipWith (· ++ ·) columns (tails.map ofProgram))

/-- The text of a search, after `n` values. -/
def searchText {F : Type} (P : Parsers F) (tail : WrapperMethod → ℕ → ℕ → Text) (n : ℕ)
    (s : CommonSearch) : TaintedText :=
  conjunction ((recognised s.search).map fun e => ofRequest e.1.column)
    (entryTails P tail n (recognised s.search))

/-- The text is a conjunction of one condition for each entry with a known operator: a single column,
the operator of the entry, and placeholders for its values. All but the columns is the program's. -/
def Shaped {F : Type} (D : Dialect) (P : Parsers F) (tail : WrapperMethod → ℕ → ℕ → Text)
    (s : CommonSearch) (n : ℕ) (written : TaintedText) : Prop :=
  ∃ columns : List TaintedText, columns.length = (recognised s.search).length ∧
    (∀ c ∈ columns, D.Column c.text) ∧
    written = conjunction columns (entryTails P tail n (recognised s.search))

/-! ## The text that is written -/

section Written

variable {W F : Type} {P : Parsers F} {R : RbatisWrapper W F} {sql : W → Text} {argc : W → ℕ}
  {tail : WrapperMethod → ℕ → ℕ → Text}

/-- The conditions of the entries, with their fields as columns. -/
def entryPieces (P : Parsers F) (tail : WrapperMethod → ℕ → ℕ → Text) (n : ℕ)
    (entries : List (SearchField × SearchOp)) : List Text :=
  List.zipWith (· ++ ·) (entries.map fun e => e.1.column) (entryTails P tail n entries)

variable (tail) in
theorem entryPieces_cons {f : SearchField} {op : SearchOp} {vs : List (Option (SearchValue F))}
    (h : f.values P op = some vs) (n : ℕ) (entries : List (SearchField × SearchOp)) :
    entryPieces P tail n ((f, op) :: entries) =
      (f.column ++ tail op.method n vs.length) :: entryPieces P tail (n + vs.length) entries := by
  rw [entryPieces, List.map_cons, entryTails, h, Option.getD_some, List.zipWith_cons_cons]
  rfl

theorem intoWrapperLoop_next (hlaws : TextLaws R sql argc tail) {search : List SearchField}
    {m : WrapperMethod} {wp wp' : W} {column : Text} {vs : List (Option (SearchValue F))}
    (h : intoWrapperLoop P R search (R.call m (R.and wp) column vs) = some wp') :
    sql wp' = sql (R.call m (R.and wp) column vs) ++
      (entryPieces P tail (argc (R.call m (R.and wp) column vs)) (recognised search)).flatMap
        fun piece => " and ".toList ++ piece := by
  induction search generalizing m wp column vs with
  | nil =>
    cases h
    exact (List.append_nil _).symm
  | cons f search ih =>
    rw [intoWrapperLoop_cons] at h
    rw [recognised_cons]
    cases hop : f.op with
    | none =>
      rw [hop] at h
      exact ih h
    | some op =>
      simp only [hop] at h
      obtain ⟨vs', hvs', h⟩ := Option.bind_eq_some_iff.mp h
      have hpieces := entryPieces_cons tail hvs' (argc (R.call m (R.and wp) column vs))
        (recognised search)
      have hcount := hlaws.counts op.method (R.call m (R.and wp) column vs) f.column vs'
      rw [ih h, hlaws.next, hcount, Option.map_some, Option.toList_some, List.singleton_append,
        hpieces, List.flatMap_cons]
      simp only [List.append_assoc]

theorem intercalate_eq_flatMap {α : Type} (sep piece : List α) (pieces : List (List α)) :
    sep.intercalate (piece :: pieces) = piece ++ pieces.flatMap fun p => sep ++ p := by
  induction pieces generalizing piece with
  | nil => rw [List.intercalate_singleton, List.flatMap_nil, List.append_nil]
  | cons next pieces ih =>
    rw [List.intercalate_cons_cons, ih, List.flatMap_cons, List.append_assoc, List.append_assoc]

theorem intoWrapperLoop_pieces (hlaws : TextLaws R sql argc tail) {search : List SearchField}
    {wp wp' : W} (hempty : sql wp = []) (h : intoWrapperLoop P R search wp = some wp') :
    sql wp' = " and ".toList.intercalate (entryPieces P tail (argc wp) (recognised search)) := by
  induction search with
  | nil =>
    cases h
    exact hempty
  | cons f search ih =>
    rw [intoWrapperLoop_cons] at h
    rw [recognised_cons]
    cases hop : f.op with
    | none =>
      rw [hop] at h
      exact ih h
    | some op =>
      simp only [hop] at h
      obtain ⟨vs, hvs, h⟩ := Option.bind_eq_some_iff.mp h
      rw [intoWrapperLoop_next hlaws h, hlaws.first _ _ _ _ hempty, hlaws.counts, Option.map_some,
        Option.toList_some, List.singleton_append, entryPieces_cons tail hvs, intercalate_eq_flatMap]

theorem text_intercalate (sep : TaintedText) (pieces : List TaintedText) :
    TaintedText.text (sep.intercalate pieces) = sep.text.intercalate (pieces.map TaintedText.text) := by
  cases pieces with
  | nil => rfl
  | cons piece pieces =>
    rw [List.map_cons, intercalate_eq_flatMap, intercalate_eq_flatMap, text_append]
    simp [TaintedText.text, List.map_flatMap, List.flatMap_map]

/-- **The text of a search** on an empty wrapper. -/
theorem intoWrapperLoop_sql (hlaws : TextLaws R sql argc tail) {s : CommonSearch} {wp wp' : W}
    (hempty : sql wp = []) (h : s.intoWrapper P R wp = some wp') :
    sql wp' = (searchText P tail (argc wp) s).text := by
  have hpieces : ∀ (columns tails : List Text),
      (List.zipWith (· ++ ·) (columns.map ofRequest) (tails.map ofProgram)).map TaintedText.text =
        List.zipWith (· ++ ·) columns tails := by
    intro columns tails
    rw [List.map_zipWith, List.zipWith_map]
    simp [text_append]
  have hcolumns : ((recognised s.search).map fun e => ofRequest e.1.column) =
      ((recognised s.search).map fun e => e.1.column).map ofRequest := by
    rw [List.map_map]
    rfl
  rw [intoWrapperLoop_pieces hlaws hempty h, searchText, conjunction, text_intercalate,
    text_ofProgram, hcolumns, hpieces]
  rfl

end Written

/-! ## Reading the columns back -/

section Separators

variable {α : Type} [DecidableEq α] {sep : List α} {xs ys ts : List (List α)}

omit [DecidableEq α] in
theorem count_intercalate_zipWith [BEq α] (a : α) (h : xs.length = ts.length) :
    (sep.intercalate (List.zipWith (· ++ ·) xs ts)).count a =
      (xs.map (List.count a)).sum + (sep.intercalate ts).count a := by
  induction xs generalizing ts with
  | nil =>
    cases ts with
    | nil => rfl
    | cons t ts => cases h
  | cons x xs ih =>
    cases ts with
    | nil => cases h
    | cons t ts =>
      have hlen : xs.length = ts.length := Nat.succ.inj h
      have hrest := ih hlen
      cases ts with
      | nil =>
        cases List.length_eq_zero_iff.mp hlen
        simp [List.count_append]
      | cons t' ts =>
        obtain ⟨x', xs', rfl⟩ := List.exists_cons_of_length_eq_add_one hlen
        rw [List.zipWith_cons_cons, List.intercalate_cons_of_ne_nil (by simp),
          List.intercalate_cons_of_ne_nil (by simp), List.map_cons, List.sum_cons]
        simp only [List.count_append, hrest]
        omega

/-- **Columns are read back** from a conjunction with given tails. -/
theorem eq_of_intercalate_eq {a : α} (hxs : xs.length = ts.length) (hys : ys.length = ts.length)
    (htail : ∀ t ∈ ts, ∃ rest, t = a :: rest) (hx : ∀ x ∈ xs, a ∉ x) (hy : ∀ y ∈ ys, a ∉ y)
    (h : sep.intercalate (List.zipWith (· ++ ·) xs ts) =
      sep.intercalate (List.zipWith (· ++ ·) ys ts)) : xs = ys := by
  induction ts generalizing xs ys with
  | nil => rw [List.length_eq_zero_iff.mp hxs, List.length_eq_zero_iff.mp hys]
  | cons t ts ih =>
    obtain ⟨x, xs, rfl⟩ := List.exists_cons_of_length_eq_add_one hxs
    obtain ⟨y, ys, rfl⟩ := List.exists_cons_of_length_eq_add_one hys
    rw [List.forall_mem_cons] at htail hx hy
    obtain ⟨rest, rfl⟩ := htail.1
    have hxs' : xs.length = ts.length := Nat.succ.inj hxs
    have hys' : ys.length = ts.length := Nat.succ.inj hys
    rw [List.zipWith_cons_cons, List.zipWith_cons_cons] at h
    cases ts with
    | nil =>
      rw [List.length_eq_zero_iff.mp hxs', List.length_eq_zero_iff.mp hys'] at h ⊢
      simp only [List.zipWith_nil_left, List.intercalate_singleton] at h
      rw [List.append_cancel_right h]
    | cons t' ts =>
      obtain ⟨x', xs', rfl⟩ := List.exists_cons_of_length_eq_add_one hxs'
      obtain ⟨y', ys', rfl⟩ := List.exists_cons_of_length_eq_add_one hys'
      rw [List.intercalate_cons_of_ne_nil (by simp), List.intercalate_cons_of_ne_nil (by simp)] at h
      have hhead : x = y := by
        have hcut := h
        simp only [List.append_assoc, List.cons_append] at hcut
        exact eq_of_append_cons hx.1 hy.1 hcut
      rw [hhead] at h ⊢
      rw [ih hxs' hys' htail.2 hx.2 hy.2 (List.append_cancel_left h)]

end Separators

/-- **Columns are read back** from conditions: when those of one side are the request's, so are those of
the other side, and they are the same. -/
theorem eq_of_conjunction_eq {columns : List TaintedText} {fields tails : List Text}
    (hcolumns : columns.length = tails.length) (hfields : fields.length = tails.length)
    (hspace : ∀ t ∈ tails, ∃ rest, t = ' ' :: rest)
    (h : conjunction (fields.map ofRequest) tails = conjunction columns tails) :
    fields.map ofRequest = columns := by
  have hlen : ∀ n, n = tails.length → n = (tails.map ofProgram).length := fun n hn => by
    rw [hn, List.length_map]
  have hlen₁ := hlen (fields.map ofRequest).length ((List.length_map _).trans hfields)
  have hlen₂ := hlen _ hcolumns
  have hrequest : ∀ x ∈ fields.map ofRequest, (' ', false) ∉ x := by
    intro x hx hmem
    obtain ⟨s, -, rfl⟩ := List.mem_map.mp hx
    obtain ⟨c, -, hc⟩ := List.mem_map.mp hmem
    cases (Prod.ext_iff.mp hc).2
  -- both sides have the same number of spaces of the program, and those of the fields are none
  have hcount := congrArg (List.count (' ', false)) h
  rw [conjunction, conjunction, count_intercalate_zipWith _ hlen₁, count_intercalate_zipWith _ hlen₂]
    at hcount
  have hzero : ((fields.map ofRequest).map (List.count (' ', false))).sum = 0 := by
    refine List.sum_eq_zero fun n hn => ?_
    obtain ⟨x, hx, rfl⟩ := List.mem_map.mp hn
    exact List.count_eq_zero.mpr (hrequest x hx)
  have hnone : ∀ c ∈ columns, (' ', false) ∉ c := by
    intro c hc
    have hsum : (columns.map (List.count (' ', false))).sum = 0 := by omega
    exact List.count_eq_zero.mp (List.sum_eq_zero_iff.mp hsum _ (List.mem_map_of_mem hc))
  refine eq_of_intercalate_eq hlen₁ hlen₂ (a := (' ', false)) (fun t ht => ?_) hrequest hnone h
  obtain ⟨s, hs, rfl⟩ := List.mem_map.mp ht
  obtain ⟨rest, rfl⟩ := hspace s hs
  exact ⟨ofProgram rest, rfl⟩

/-- What the methods write after the column, with `?` for a value. -/
def mysqlTail (m : WrapperMethod) (_ k : ℕ) : Text :=
  let marks := List.intercalate [','] (List.replicate k " ? ".toList)
  match m with
  | .eq => " = ?".toList
  | .ne => " <> ?".toList
  | .gt => " > ?".toList
  | .ge => " >= ?".toList
  | .lt => " < ?".toList
  | .le => " <= ?".toList
  | .like => " like ?".toList
  | .notLike => " not like ?".toList
  | .in_ => " in (".toList ++ marks ++ [')']
  | .notIn => " not in (".toList ++ marks ++ [')']
  | .between => " between ? and ?".toList
  | .notBetween => " not between ? and ?".toList
  | .isNull => " is null".toList
  | .isNotNull => " is not null".toList

/-- The text of a statement and the number of its values. -/
def sqlWrapper : RbatisWrapper (Text × ℕ) Unit where
  and wp := if wp.1 = [] then wp else (wp.1 ++ " and ".toList, wp.2)
  call m wp column vs := (wp.1 ++ (column ++ mysqlTail m wp.2 vs.length), wp.2 + vs.length)

theorem mysqlTail_space (m : WrapperMethod) (n k : ℕ) : ∃ rest, mysqlTail m n k = ' ' :: rest := by
  cases m <;> exact ⟨_, rfl⟩

theorem sqlWrapper_laws : TextLaws sqlWrapper Prod.fst Prod.snd mysqlTail where
  space := mysqlTail_space
  counts m wp column vs := by
    simp only [sqlWrapper]
    split_ifs <;> rfl
  first m wp column vs hempty := by
    simp only [sqlWrapper, hempty, if_true, List.nil_append]
  next m wp column vs m' column' vs' := by
    have hne : ∀ wp : Text × ℕ, (sqlWrapper.call m wp column vs).1 ≠ [] := by
      intro wp hnil
      obtain ⟨rest, hrest⟩ := mysqlTail_space m wp.2 vs.length
      simp only [sqlWrapper, hrest, List.append_eq_nil_iff] at hnil
      exact List.cons_ne_nil _ _ hnil.2.2
    have hand : sqlWrapper.and (sqlWrapper.call m (sqlWrapper.and wp) column vs) =
        ((sqlWrapper.call m (sqlWrapper.and wp) column vs).1 ++ " and ".toList,
          (sqlWrapper.call m (sqlWrapper.and wp) column vs).2) := if_neg (hne _)
    rw [hand]
    rfl

/-- A character of an unquoted name. -/
def nameChar (c : Char) : Bool :=
  c.isAlphanum || c = '_' || c = '$' || (0x80 ≤ c.toNat && c.toNat ≤ 0xFFFF)

/-- Words that are reserved in MySQL. -/
def mysqlReserved : List Text :=
  conditionWords ++ ["all".toList, "as".toList, "between".toList, "case".toList, "distinct".toList,
    "exists".toList, "from".toList, "in".toList, "is".toList, "like".toList, "select".toList,
    "union".toList, "where".toList, "xor".toList]

theorem nameChar_eq_false :
    ∀ c ∈ punctuation ++ [' ', '\t', '\n', '\r', '.', '`'], nameChar c = false := by
  simp [punctuation, nameChar]

/-- An unquoted name of MySQL. One that starts with a digit is left to the quotes. -/
def mysqlWord (s : Text) : Bool := s.all nameChar && s.head?.any fun c => !c.isDigit

/-- The quotes of MySQL. -/
def mysqlClosing (c : Char) : Option Char := if c = '`' then some '`' else none

theorem mysqlWord_chars {s : Text} (h : mysqlWord s = true) : (∃ c ∈ s, c.isDigit = false) ∧
    ∀ c ∈ s, c ∉ punctuation ∧ isBlank c = false ∧ c ≠ '.' ∧ mysqlClosing c = none := by
  rw [mysqlWord, Bool.and_eq_true, List.all_eq_true] at h
  obtain ⟨hall, hhead⟩ := h
  have hne : ∀ c ∈ s, ∀ x ∈ punctuation ++ [' ', '\t', '\n', '\r', '.', '`'], c ≠ x := by
    rintro c hc x hx rfl
    exact absurd (hall c hc) (by rw [nameChar_eq_false c hx]; exact Bool.false_ne_true)
  refine ⟨?_, fun c hc => ⟨fun hmem => hne c hc c (List.mem_append_left _ hmem) rfl, ?_, ?_, ?_⟩⟩
  · obtain ⟨c, hc, hdigit⟩ := (Option.any_eq_true _ _).mp hhead
    exact ⟨c, List.mem_of_mem_head? hc, by simpa using hdigit⟩
  · have hblank : ∀ x ∈ [' ', '\t', '\n', '\r', '.', '`'], c ≠ x := fun x hx =>
      hne c hc x (List.mem_append_right _ hx)
    simp only [List.forall_mem_cons] at hblank
    simp [isBlank, hblank]
  · exact hne c hc '.' (List.mem_append_right _ (by decide))
  · exact if_neg (hne c hc '`' (List.mem_append_right _ (by decide)))

theorem mysqlClosing_quotes {c q : Char} (h : mysqlClosing c = some q) :
    (c, q) ∈ [('"', '"'), ('`', '`'), ('[', ']')] := by
  unfold mysqlClosing at h
  split_ifs at h with hc
  cases h
  rw [hc]
  decide

theorem mysqlReserved_conditionWords : ∀ w ∈ conditionWords, mysqlReserved.contains w = true := by
  decide +kernel

/-- The names of MySQL. -/
def mysqlNames : Dialect where
  word := mysqlWord
  reserved := mysqlReserved.contains
  closing := mysqlClosing
  word_chars _ := mysqlWord_chars
  reserved_conditionWords := mysqlReserved_conditionWords
  closing_quotes _ _ := mysqlClosing_quotes

/-- Values that look like SQL, in two operators, and a name in quotes. -/
def quotedSearch : CommonSearch where
  search := [⟨some "größe".toList, some "eq".toList, none, some "1' or '1'='1".toList⟩,
    ⟨some "t.`my col`".toList, some "IN".toList, none, some "x,) or (1=1".toList⟩]

/-- A field that is more than a column. -/
def openSearch : CommonSearch where
  search := [⟨some "1=1 or a".toList, some "eq".toList, none, some ['x']⟩]

end ChimesUtils
