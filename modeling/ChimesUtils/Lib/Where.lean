import ChimesUtils.Lib.Words

/-!
# WHERE clauses

A WHERE clause of conditions on columns that are joined by `and`, possibly in brackets. The values are
the arguments of the statement, which a function gives for each placeholder. The words of SQL are read in
upper and in lower case.

* `Test`, `Test.Holds`: a condition, and when it is true of a row, neither false nor unknown;
* `State.step`, `parse`: the grammar, by a machine that takes one word at a time;
* `Says`: what a text adds to a clause. `says_compare` to `says_within` are the conditions,
  `Says.and` and `Says.group` put them together, `parse_of_says` is the whole clause.
-/

namespace ChimesUtils.Lib

/-- What a row has to say about values: which one is missing, their order, and the matching of a text
with a pattern. -/
structure Values (V : Type) where
  missing : V → Prop
  lt : V → V → Prop
  like : V → V → Prop

inductive Comparison where
  | eq
  | ne
  | gt
  | ge
  | lt
  | le
  deriving DecidableEq

/-- A condition on a column. -/
inductive Test (V : Type) where
  | compare (op : Comparison) (column : List Char) (v : V)
  | between (negated : Bool) (column : List Char) (min max : V)
  | like (negated : Bool) (column : List Char) (pattern : V)
  | isNull (negated : Bool) (column : List Char)
  | within (negated : Bool) (column : List Char) (vs : List V)

section Meaning

variable {V : Type} (D : Values V) (row : List Char → V)

def Comparison.Holds : Comparison → V → V → Prop
  | .eq, a, b => a = b
  | .ne, a, b => a ≠ b
  | .gt, a, b => D.lt b a
  | .ge, a, b => D.lt b a ∨ a = b
  | .lt, a, b => D.lt a b
  | .le, a, b => D.lt a b ∨ a = b

/-- The comparison is true. With a missing value it is unknown. -/
def Known (P : V → V → Prop) (a b : V) : Prop := ¬ D.missing a ∧ ¬ D.missing b ∧ P a b

/-- The condition is true of the row. -/
def Test.Holds : Test V → Prop
  | .compare op c v => Known D (op.Holds D) (row c) v
  | .between false c min max =>
    Known D (Comparison.ge.Holds D) (row c) min ∧ Known D (Comparison.le.Holds D) (row c) max
  | .between true c min max =>
    Known D (fun a b => ¬ Comparison.ge.Holds D a b) (row c) min ∨
      Known D (fun a b => ¬ Comparison.le.Holds D a b) (row c) max
  | .like false c pattern => Known D D.like (row c) pattern
  | .like true c pattern => Known D (fun a b => ¬ D.like a b) (row c) pattern
  | .isNull false c => D.missing (row c)
  | .isNull true c => ¬ D.missing (row c)
  | .within false c vs => ∃ v ∈ vs, Known D (· = ·) (row c) v
  | .within true c vs => ∀ v ∈ vs, Known D (· ≠ ·) (row c) v

end Meaning

/-! ## The grammar -/

/-- The words of a clause that are no names. -/
def keywords : List (List Char) :=
  ["and", "or", "not", "is", "null", "in", "like", "between", "where"].map String.toList

/-- No character of an operator, a placeholder or a literal. -/
def nameChar (c : Char) : Bool :=
  inWord c && !(['=', '<', '>', '?', '$', '@', ':', ';', '\x27'].contains c)

/-- A name, with its table or without, in quotes or not. -/
def isName (w : List Char) : Bool :=
  (w.head?.any fun c => !c.isDigit) && w.all nameChar && !keywords.contains (w.map Char.toLower)

/-- A word of SQL in any case. -/
def isKeyword (word keyword : List Char) : Bool := word.map Char.toLower == keyword

/-- What comes next. -/
inductive Mode (V : Type) where
  /-- A condition. -/
  | start
  /-- A connective, a closing bracket, or the end. -/
  | done
  | column (c : List Char)
  | negation (c : List Char)
  | is (c : List Char)
  | isNot (c : List Char)
  | comparing (op : Comparison) (c : List Char)
  | pattern (negated : Bool) (c : List Char)
  | low (negated : Bool) (c : List Char)
  | middle (negated : Bool) (c : List Char) (min : V)
  | high (negated : Bool) (c : List Char) (min : V)
  | opening (negated : Bool) (c : List Char)
  | element (negated : Bool) (c : List Char) (vs : List V)
  | next (negated : Bool) (c : List Char) (vs : List V)

/-- A clause up to a word: its conditions, the open brackets, the placeholders so far. -/
structure State (V : Type) where
  tests : List (Test V)
  depth : ℕ
  used : ℕ
  mode : Mode V

/-- After a column and `not`. -/
def negatable {V : Type} (negated : Bool) (c word : List Char) : Option (Mode V) :=
  if isKeyword word "like".toList then some (.pattern negated c)
  else if isKeyword word "between".toList then some (.low negated c)
  else if isKeyword word "in".toList then some (.opening negated c)
  else none

/-- After a column. -/
def operator {V : Type} (c word : List Char) : Option (Mode V) :=
  if word = "=".toList then some (.comparing .eq c)
  else if word = "<>".toList then some (.comparing .ne c)
  else if word = ">".toList then some (.comparing .gt c)
  else if word = ">=".toList then some (.comparing .ge c)
  else if word = "<".toList then some (.comparing .lt c)
  else if word = "<=".toList then some (.comparing .le c)
  else if isKeyword word "is".toList then some (.is c)
  else if isKeyword word "not".toList then some (.negation c)
  else negatable false c word

namespace State

variable {V : Type}

def goTo (p : State V) (mode : Mode V) : State V := { p with mode := mode }

/-- A condition is complete. -/
def finish (p : State V) (t : Test V) : State V :=
  { p with tests := p.tests ++ [t], mode := .done }

/-- A placeholder has been read. -/
def use (p : State V) : State V := { p with used := p.used + 1 }

/-- One word. `value k word` is the argument of the placeholder `word`, with `k` before it. -/
def step (value : ℕ → List Char → Option V) (p : State V) (word : List Char) : Option (State V) :=
  match p.mode with
  | .start =>
    if isName word then some (p.goTo (.column word))
    else if word = ['('] then some { p with depth := p.depth + 1 }
    else none
  | .done =>
    if isKeyword word "and".toList then some (p.goTo .start)
    else if word = [')'] ∧ 0 < p.depth then some { p with depth := p.depth - 1 }
    else none
  | .column c => (operator c word).map p.goTo
  | .negation c => (negatable true c word).map p.goTo
  | .is c =>
    if isKeyword word "null".toList then some (p.finish (.isNull false c))
    else if isKeyword word "not".toList then some (p.goTo (.isNot c))
    else none
  | .isNot c => if isKeyword word "null".toList then some (p.finish (.isNull true c)) else none
  | .comparing op c => (value p.used word).map fun v => p.use.finish (.compare op c v)
  | .pattern negated c => (value p.used word).map fun v => p.use.finish (.like negated c v)
  | .low negated c => (value p.used word).map fun v => p.use.goTo (.middle negated c v)
  | .middle negated c min =>
    if isKeyword word "and".toList then some (p.goTo (.high negated c min)) else none
  | .high negated c min =>
    (value p.used word).map fun v => p.use.finish (.between negated c min v)
  | .opening negated c => if word = ['('] then some (p.goTo (.element negated c [])) else none
  | .element negated c vs => (value p.used word).map fun v => p.use.goTo (.next negated c (vs ++ [v]))
  | .next negated c vs =>
    if word = [','] then some (p.goTo (.element negated c vs))
    else if word = [')'] then some (p.finish (.within negated c vs))
    else none

/-- The clause may end here. A connective at the end counts for nothing. -/
def ends (p : State V) : Bool :=
  match p.mode with
  | .start | .done => p.depth = 0
  | _ => false

end State

open State

/-- The conditions of a clause, if the text is one. -/
def parse {V : Type} (value : ℕ → List Char → Option V) (t : List Char) : Option (List (Test V)) :=
  (((words t).foldlM (step value) ⟨[], 0, 0, .start⟩).filter ends).map State.tests

/-! ## What a text says -/

section Says

variable {V : Type} (value : ℕ → List Char → Option V)

/-- After `n` placeholders, the words are conditions with `k` placeholders. -/
def Adds (n k : ℕ) (ws : List (List Char)) (ts : List (Test V)) : Prop :=
  ∀ p : State V, p.mode = .start → p.used = n →
    ws.foldlM (step value) p = some { p with tests := p.tests ++ ts, used := n + k, mode := .done }

/-- After `n` placeholders, the text is conditions with `k` placeholders. -/
def Says (n k : ℕ) (t : List Char) (ts : List (Test V)) : Prop := ∃ ws, Reads t ws ∧ Adds value n k ws ts

variable {value} {n k k' : ℕ} {c t t' : List Char} {ws ws' : List (List Char)} {ts ts' : List (Test V)}
  {w w' : List Char} {v v' : V}

theorem isWord_of_isName (hc : isName c = true) : IsWord c := by
  rw [isName, Bool.and_eq_true, Bool.and_eq_true] at hc
  refine ⟨?_, fun a ha => ((Bool.and_eq_true _ _).mp (List.all_eq_true.mp hc.1.2 a ha)).1⟩
  rintro rfl
  exact absurd hc.1.1 (by decide)

theorem isWord_and : IsWord "and".toList := by decide

/-! ### One condition -/

theorem run_cons {p p' p'' : State V} (h : step value p w = some p')
    (h' : ws.foldlM (step value) p' = some p'') : (w :: ws).foldlM (step value) p = some p'' := by
  rw [List.foldlM_cons, h]
  exact h'

theorem run_nil {p p' : State V} (h : p = p') :
    ([] : List (List Char)).foldlM (step value) p = some p' :=
  congrArg some h

theorem run_append {p p' p'' : State V} (h : ws.foldlM (step value) p = some p')
    (h' : ws'.foldlM (step value) p' = some p'') : (ws ++ ws').foldlM (step value) p = some p'' := by
  rw [List.foldlM_append, h]
  exact h'

theorem map_value {β : Type} {f : V → β} (hv : value n w = some v) : (value n w).map f = some (f v) := by
  rw [hv]
  rfl

theorem adds_of_column (hc : isName c = true)
    (h : ∀ tests depth, ws.foldlM (step value) ⟨tests, depth, n, .column c⟩ =
      some ⟨tests ++ ts, depth, n + k, .done⟩) : Adds value n k (c :: ws) ts := by
  rintro ⟨tests, depth, used, mode⟩ hmode hused
  obtain rfl : mode = .start := hmode
  obtain rfl : used = n := hused
  exact run_cons (if_pos hc) (h tests depth)

theorem says_of_column (hc : isName c = true) (hws : ∀ w ∈ ws, IsWord w)
    (h : ∀ tests depth, ws.foldlM (step value) ⟨tests, depth, n, .column c⟩ =
      some ⟨tests ++ ts, depth, n + k, .done⟩) : Says value n k (List.intercalate [' '] (c :: ws)) ts := by
  refine ⟨c :: ws, .spaced (List.cons_ne_nil _ _) ?_, adds_of_column hc h⟩
  exact List.forall_mem_cons.mpr ⟨isWord_of_isName hc, hws⟩

theorem says_compare (hc : isName c = true) {op : Comparison} {o : List Char} (ho : IsWord o)
    (hop : operator (V := V) c o = some (.comparing op c)) (hw : IsWord w) (hv : value n w = some v) :
    Says value n 1 (List.intercalate [' '] [c, o, w]) [.compare op c v] := by
  refine says_of_column hc (by simp [ho, hw]) fun tests depth => ?_
  have hoperator : step value ⟨tests, depth, n, .column c⟩ o =
      some ⟨tests, depth, n, .comparing op c⟩ := congrArg (Option.map _) hop
  exact run_cons hoperator <| run_cons (map_value hv) <| run_nil rfl

theorem says_like (hc : isName c = true) (hw : IsWord w) (hv : value n w = some v) :
    Says value n 1 (List.intercalate [' '] [c, "like".toList, w]) [.like false c v] := by
  refine says_of_column hc ?_ fun _ _ => run_cons rfl <| run_cons (map_value hv) <| run_nil rfl
  simp only [List.forall_mem_cons]
  exact ⟨by decide, hw, List.forall_mem_nil _⟩

theorem says_notLike (hc : isName c = true) (hw : IsWord w) (hv : value n w = some v) :
    Says value n 1 (List.intercalate [' '] [c, "not".toList, "like".toList, w]) [.like true c v] := by
  refine says_of_column hc ?_ fun _ _ =>
    run_cons rfl <| run_cons rfl <| run_cons (map_value hv) <| run_nil rfl
  simp only [List.forall_mem_cons]
  exact ⟨by decide, by decide, hw, List.forall_mem_nil _⟩

theorem says_between (hc : isName c = true) (hw : IsWord w) (hv : value n w = some v)
    (hw' : IsWord w') (hv' : value (n + 1) w' = some v') :
    Says value n 2 (List.intercalate [' '] [c, "between".toList, w, "and".toList, w'])
      [.between false c v v'] := by
  refine says_of_column hc ?_ fun _ _ =>
    run_cons rfl <| run_cons (map_value hv) <| run_cons rfl <| run_cons (map_value hv') <| run_nil rfl
  simp only [List.forall_mem_cons]
  exact ⟨by decide, hw, isWord_and, hw', List.forall_mem_nil _⟩

theorem says_notBetween (hc : isName c = true) (hw : IsWord w) (hv : value n w = some v)
    (hw' : IsWord w') (hv' : value (n + 1) w' = some v') :
    Says value n 2 (List.intercalate [' '] [c, "not".toList, "between".toList, w, "and".toList, w'])
      [.between true c v v'] := by
  refine says_of_column hc ?_ fun _ _ => run_cons rfl <| run_cons rfl <|
    run_cons (map_value hv) <| run_cons rfl <| run_cons (map_value hv') <| run_nil rfl
  simp only [List.forall_mem_cons]
  exact ⟨by decide, by decide, hw, isWord_and, hw', List.forall_mem_nil _⟩

theorem says_isNull (hc : isName c = true) (hw : IsWord w) (hnull : isKeyword w "null".toList = true) :
    Says value n 0 (List.intercalate [' '] [c, "is".toList, w]) [.isNull false c] := by
  refine says_of_column hc ?_ fun _ _ => run_cons rfl <| run_cons (if_pos hnull) <| run_nil rfl
  simp only [List.forall_mem_cons]
  exact ⟨by decide, hw, List.forall_mem_nil _⟩

theorem says_isNotNull (hc : isName c = true) (hw : IsWord w)
    (hnull : isKeyword w "null".toList = true) :
    Says value n 0 (List.intercalate [' '] [c, "is".toList, "not".toList, w]) [.isNull true c] := by
  refine says_of_column hc ?_ fun _ _ =>
    run_cons rfl <| run_cons rfl <| run_cons (if_pos hnull) <| run_nil rfl
  simp only [List.forall_mem_cons]
  exact ⟨by decide, by decide, hw, List.forall_mem_nil _⟩

/-! ### Membership -/

/-- The placeholders have the values. -/
def Gives (value : ℕ → List Char → Option V) : ℕ → List (List Char × V) → Prop
  | _, [] => True
  | n, e :: es => value n e.1 = some e.2 ∧ Gives value (n + 1) es

/-- The words of a list with commas. -/
def elementWords : List (List Char × V) → List (List Char)
  | [] => []
  | [e] => [e.1]
  | e :: e' :: es => e.1 :: [','] :: elementWords (e' :: es)

/-- The text of a list, with white space around each element. -/
def elementText (es : List (List Char × V)) : List Char :=
  List.intercalate [','] (es.map fun e => [' '] ++ e.1 ++ [' '])

theorem reads_elements {es : List (List Char × V)} (hes : ∀ e ∈ es, IsWord e.1) :
    Reads (elementText es) (elementWords es) := by
  induction es with
  | nil => exact reads_nil
  | cons e es ih =>
    obtain ⟨he, hes'⟩ := List.forall_mem_cons.mp hes
    have hfirst : Reads ([' '] ++ e.1 ++ [' ']) [e.1] := (reads_word he).space_cons.space_concat
    cases es with
    | nil =>
      rw [elementText, List.map_singleton, List.intercalate_singleton]
      exact hfirst
    | cons e' es =>
      rw [elementText, List.map_cons, List.map_cons, List.intercalate_cons_cons, List.append_assoc]
      exact hfirst.alone (by decide) (by decide) (ih hes')

theorem run_elements {es : List (List Char × V)} {negated : Bool} {tests : List (Test V)} {depth : ℕ}
    (hne : es ≠ []) (hes : Gives value n es) (vs : List V) :
    (elementWords es ++ [[')']]).foldlM (step value) ⟨tests, depth, n, .element negated c vs⟩ =
      some ⟨tests ++ [.within negated c (vs ++ es.map Prod.snd)], depth, n + es.length, .done⟩ := by
  induction es generalizing n vs with
  | nil => exact absurd rfl hne
  | cons e es ih =>
    cases es with
    | nil => exact run_cons (map_value hes.1) <| run_cons rfl <| run_nil rfl
    | cons e' es =>
      refine run_cons (map_value hes.1) <| run_cons rfl <|
        (ih (List.cons_ne_nil _ _) hes.2 (vs ++ [e.2])).trans ?_
      rw [List.append_assoc, List.map_cons, List.map_cons, List.map_cons, List.length_cons,
        List.length_cons, Nat.add_assoc, Nat.add_comm 1]
      rfl

/-- A list in brackets, after a column and the words of the operator. -/
theorem says_within {op : List (List Char)} {negated : Bool} (hc : isName c = true)
    (hop : ∀ w ∈ op, IsWord w)
    (hrun : ∀ (tests : List (Test V)) (depth : ℕ),
      op.foldlM (step value) ⟨tests, depth, n, .column c⟩ = some ⟨tests, depth, n, .opening negated c⟩)
    {es : List (List Char × V)} (hne : es ≠ []) (hword : ∀ e ∈ es, IsWord e.1) (hes : Gives value n es) :
    Says value n es.length (List.intercalate [' '] (c :: op) ++ ' ' :: '(' :: (elementText es ++ [')']))
      [.within negated c (es.map Prod.snd)] := by
  have hwords : Reads (List.intercalate [' '] (c :: op)) (c :: op) :=
    .spaced (List.cons_ne_nil _ _) (List.forall_mem_cons.mpr ⟨isWord_of_isName hc, hop⟩)
  have hlist : Reads ('(' :: (elementText es ++ [')'])) (['('] :: (elementWords es ++ [[')']])) :=
    ((reads_elements hword).alone (by decide) (by decide) reads_nil).cons (by decide) (by decide)
  refine ⟨_, hwords.space hlist, ?_⟩
  show Adds value n es.length (c :: (op ++ ['('] :: (elementWords es ++ [[')']]))) _
  refine adds_of_column hc fun tests depth => ?_
  exact run_append (hrun tests depth) <| run_cons rfl <| run_elements hne hes []

/-! ### Several conditions -/

/-- Two parts of a clause. -/
theorem Says.and (h : Says value n k t ts) (h' : Says value (n + k) k' t' ts') :
    Says value n (k + k') (t ++ " and ".toList ++ t') (ts ++ ts') := by
  obtain ⟨ws, hreads, hadds⟩ := h
  obtain ⟨ws', hreads', hadds'⟩ := h'
  have htext : t ++ " and ".toList ++ t' = t ++ ' ' :: ("and".toList ++ ' ' :: t') := by
    simp
  rw [htext]
  refine ⟨_, hreads.space ((reads_word isWord_and).space hreads'), fun p hmode hused => ?_⟩
  refine run_append (hadds p hmode hused) <| run_cons rfl <| (hadds' _ rfl rfl).trans ?_
  simp only [goTo, List.append_assoc, Nat.add_assoc]

/-- A part of a clause in brackets. -/
theorem Says.group (h : Says value n k t ts) : Says value n k (['('] ++ t ++ [')']) ts := by
  obtain ⟨ws, hreads, hadds⟩ := h
  have hwords : Reads ('(' :: (t ++ [')'])) (['('] :: (ws ++ [[')']])) :=
    (hreads.alone (by decide) (by decide) reads_nil).cons (by decide) (by decide)
  refine ⟨_, hwords, ?_⟩
  rintro ⟨tests, depth, used, mode⟩ hmode hused
  obtain rfl : mode = .start := hmode
  have hopen : step value ⟨tests, depth, used, .start⟩ ['('] = some ⟨tests, depth + 1, used, .start⟩ :=
    rfl
  refine run_cons hopen <| run_append (hadds ⟨tests, depth + 1, used, .start⟩ rfl hused) ?_
  have hclose : step value ⟨tests ++ ts, depth + 1, n + k, .done⟩ [')'] =
      some ⟨tests ++ ts, depth, n + k, .done⟩ := by
    dsimp only [step]
    rw [if_neg (by decide), if_pos ⟨rfl, Nat.succ_pos _⟩]
    rfl
  exact run_cons hclose (run_nil rfl)

/-- **A whole clause.** A connective at its end counts for nothing. -/
theorem parse_of_says (h : Says value 0 k t ts) :
    parse value t = some ts ∧ parse value (t ++ " and ".toList) = some ts := by
  obtain ⟨ws, hreads, hadds⟩ := h
  have hrun := hadds ⟨[], 0, 0, .start⟩ rfl rfl
  have hconnective : Reads (t ++ " and ".toList) (ws ++ ["and".toList]) := by
    have htext : t ++ " and ".toList = t ++ ' ' :: ("and".toList ++ [' ']) := rfl
    rw [htext]
    exact hreads.space (reads_word isWord_and).space_concat
  constructor
  · rw [parse, hreads.words_eq, hrun]
    rfl
  · have hend : (ws ++ ["and".toList]).foldlM (step value) ⟨[], 0, 0, .start⟩ =
        some ⟨[] ++ ts, 0, 0 + k, .start⟩ := run_append hrun (run_cons rfl <| run_nil rfl)
    rw [parse, hconnective.words_eq, hend]
    rfl

theorem parse_nil : parse value [] = some [] := rfl

end Says

end ChimesUtils.Lib
