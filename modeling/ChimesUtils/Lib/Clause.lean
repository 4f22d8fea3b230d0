import ChimesUtils.Lib.Where

/-!
# Clauses with alternatives

A WHERE clause of conditions that are joined by `and` and `or`, possibly in brackets. `and` binds more
tightly, so a clause is a list of alternatives, each of conditions that are joined by `and`.

* `Clause.Holds`: when a clause is true of a row;
* `Position.step`, `parseClause`: the grammar, with the conditions of `Lib.Where`;
* `Turns`: what a text does to the alternatives that are open. `Turns.and`, `Turns.or` and `Turns.group`
  put texts together, `parseClause_of_turns` is the whole clause;
* `turns_of_says`: a text of `Lib.Where` reads as conditions that are joined by `and`.
-/

namespace ChimesUtils.Lib

inductive Clause (V : Type) where
  | test (t : Test V)
  /-- Alternatives, each of clauses that are joined by `and`. -/
  | group (alternatives : List (List (Clause V)))

section Meaning

variable {V : Type} (D : Values V) (row : List Char → V)

/-- The clause is true of the row. -/
def Clause.Holds : Clause V → Prop
  | .test t => t.Holds D row
  | .group alternatives => ∃ cs, ∃ _ : cs ∈ alternatives, ∀ c ∈ cs, c.Holds
decreasing_by
  have hcs := List.sizeOf_lt_of_mem ‹cs ∈ alternatives›
  have hc := List.sizeOf_lt_of_mem ‹c ∈ cs›
  simp only [Clause.group.sizeOf_spec]
  omega

theorem Clause.holds_test (t : Test V) : (Clause.test t).Holds D row ↔ t.Holds D row := by
  rw [Clause.Holds]

theorem Clause.holds_group (alternatives : List (List (Clause V))) :
    (Clause.group alternatives).Holds D row ↔ ∃ cs ∈ alternatives, ∀ c ∈ cs, c.Holds D row := by
  rw [Clause.Holds]
  simp only [exists_prop]

theorem Clause.holds_group_singleton (cs : List (Clause V)) :
    (Clause.group [cs]).Holds D row ↔ ∀ c ∈ cs, c.Holds D row := by
  rw [Clause.holds_group]
  simp

end Meaning

/-! ## The grammar -/

/-- Alternatives that are being read: those before the last `or`, and the current one. -/
structure Frame (V : Type) where
  before : List (List (Clause V))
  current : List (Clause V)

namespace Frame

variable {V : Type}

def empty : Frame V := ⟨[], []⟩

/-- Conditions of the current alternative. -/
def add (f : Frame V) (cs : List (Clause V)) : Frame V := { f with current := f.current ++ cs }

/-- A new alternative. -/
def split (f : Frame V) : Frame V := ⟨f.before ++ [f.current], []⟩

def whole (f : Frame V) : Clause V := .group (f.before ++ [f.current])

theorem add_nil (f : Frame V) : f.add [] = f := by
  rw [add, List.append_nil]

theorem add_add (f : Frame V) (cs ds : List (Clause V)) : (f.add cs).add ds = f.add (cs ++ ds) := by
  rw [add, add, add, List.append_assoc]

end Frame

/-- A clause up to a word: the alternatives within the innermost bracket and within those around it, and
the placeholders so far. -/
structure Position (V : Type) where
  frame : Frame V
  outer : List (Frame V)
  used : ℕ
  mode : Mode V

namespace Position

variable {V : Type}

/-- A word of a condition has been read. -/
def within (p : Position V) (q : State V) : Position V :=
  { p with frame := p.frame.add (q.tests.map .test), used := q.used, mode := q.mode }

/-- One word. Inside a condition the words are those of `State.step`. -/
def step (value : ℕ → List Char → Option V) (p : Position V) (word : List Char) : Option (Position V) :=
  match p.mode with
  | .start =>
    if isName word then some { p with mode := .column word }
    else if word = ['('] then some { p with frame := .empty, outer := p.frame :: p.outer }
    else none
  | .done =>
    if isKeyword word "and".toList then some { p with mode := .start }
    else if isKeyword word "or".toList then some { p with frame := p.frame.split, mode := .start }
    else if word = [')'] then
      match p.outer with
      | [] => none
      | f :: outer => some { p with frame := f.add [p.frame.whole], outer := outer }
    else none
  | mode => (State.step value ⟨[], 0, p.used, mode⟩ word).map p.within

/-- The clause may end here. -/
def ends (p : Position V) : Bool :=
  match p.mode with
  | .done => p.outer.isEmpty
  | _ => false

end Position

/-- The clause of a text, if the text is one. -/
def parseClause {V : Type} (value : ℕ → List Char → Option V) (t : List Char) : Option (Clause V) :=
  (((words t).foldlM (Position.step value) ⟨.empty, [], 0, .start⟩).filter Position.ends).map
    fun p => p.frame.whole

/-! ## What a text does -/

section Turns

variable {V : Type} (value : ℕ → List Char → Option V)

/-- After `n` placeholders, the text has `k` placeholders and turns the open alternatives by `F`. -/
def Turns (n k : ℕ) (t : List Char) (F : Frame V → Frame V) : Prop :=
  ∃ ws, Reads t ws ∧ ∀ p : Position V, p.mode = .start → p.used = n →
    ws.foldlM (Position.step value) p = some { p with frame := F p.frame, used := n + k, mode := .done }

variable {value} {n k k' : ℕ} {t t' : List Char} {F F' : Frame V → Frame V} {ws : List (List Char)}
  {w : List Char} {p p' p'' : Position V}

theorem turn_cons (h : Position.step value p w = some p')
    (h' : ws.foldlM (Position.step value) p' = some p'') :
    (w :: ws).foldlM (Position.step value) p = some p'' := by
  rw [List.foldlM_cons, h]
  exact h'

/-- Two texts with a connective between them. -/
theorem Turns.joined (h : Turns value n k t F) {word : List Char} (hword : IsWord word)
    (G : Frame V → Frame V)
    (hstep : ∀ p : Position V, p.mode = .done →
      Position.step value p word = some { p with frame := G p.frame, mode := .start })
    (h' : Turns value (n + k) k' t' F') :
    Turns value n (k + k') (t ++ ' ' :: (word ++ ' ' :: t')) (F' ∘ G ∘ F) := by
  obtain ⟨ws, hreads, hturns⟩ := h
  obtain ⟨ws', hreads', hturns'⟩ := h'
  refine ⟨_, hreads.space ((reads_word hword).space hreads'), fun p hmode hused => ?_⟩
  rw [List.foldlM_append, hturns p hmode hused]
  refine turn_cons (hstep _ rfl) ((hturns' _ rfl rfl).trans ?_)
  rw [Nat.add_assoc]
  rfl

/-- **A conjunction.** The second text goes on with the last alternative of the first one. -/
theorem Turns.and (h : Turns value n k t F) (h' : Turns value (n + k) k' t' F') :
    Turns value n (k + k') (t ++ " and ".toList ++ t') (F' ∘ F) := by
  have hjoined := h.joined isWord_and id (fun p hmode => by
    rw [Position.step, hmode]
    rfl) h'
  have htext : t ++ " and ".toList ++ t' = t ++ ' ' :: ("and".toList ++ ' ' :: t') := by
    simp
  rw [htext]
  exact hjoined

/-- **An alternative.** -/
theorem Turns.or (h : Turns value n k t F) (h' : Turns value (n + k) k' t' F') :
    Turns value n (k + k') (t ++ " or ".toList ++ t') (F' ∘ Frame.split ∘ F) := by
  have hjoined := h.joined (show IsWord "or".toList by decide) Frame.split (fun p hmode => by
    rw [Position.step, hmode]
    rfl) h'
  have htext : t ++ " or ".toList ++ t' = t ++ ' ' :: ("or".toList ++ ' ' :: t') := by
    simp
  rw [htext]
  exact hjoined

/-- **Brackets.** What stands in them is one condition. -/
theorem Turns.group (h : Turns value n k t F) :
    Turns value n k (['('] ++ t ++ [')']) (fun f => f.add [(F .empty).whole]) := by
  obtain ⟨ws, hreads, hturns⟩ := h
  have hwords : Reads ('(' :: (t ++ [')'])) (['('] :: (ws ++ [[')']])) :=
    (hreads.alone (by decide) (by decide) reads_nil).cons (by decide) (by decide)
  refine ⟨_, hwords, ?_⟩
  rintro ⟨frame, outer, used, mode⟩ hmode hused
  obtain rfl : mode = .start := hmode
  have hopen : Position.step value ⟨frame, outer, used, .start⟩ ['('] =
      some ⟨.empty, frame :: outer, used, .start⟩ := rfl
  refine turn_cons hopen ?_
  rw [List.foldlM_append, hturns ⟨.empty, frame :: outer, used, .start⟩ rfl hused]
  rfl

/-- **A whole clause.** -/
theorem parseClause_of_turns (h : Turns value 0 k t F) :
    parseClause value t = some (F .empty).whole := by
  obtain ⟨ws, hreads, hturns⟩ := h
  rw [parseClause, hreads.words_eq, hturns _ rfl rfl]
  rfl

/-! ## Clauses without alternatives -/

/-- A state with what was read before. -/
def State.after (p q : State V) : State V := ⟨p.tests ++ q.tests, p.depth, q.used, q.mode⟩

theorem State.step_of_condition {p : State V} (hstart : p.mode ≠ .start) (hdone : p.mode ≠ .done)
    (w : List Char) :
    State.step value p w = (State.step value ⟨[], 0, p.used, p.mode⟩ w).map p.after := by
  obtain ⟨tests, depth, used, mode⟩ := p
  have hgo : ∀ m : Mode V, some (⟨tests, depth, used, m⟩ : State V) =
      some (State.after ⟨tests, depth, used, mode⟩ ⟨[], 0, used, m⟩) := by
    intro m
    rw [State.after, List.append_nil]
  have huse : ∀ m : Mode V, (⟨tests, depth, used + 1, m⟩ : State V) =
      State.after ⟨tests, depth, used, mode⟩ ⟨[], 0, used + 1, m⟩ := by
    intro m
    rw [State.after, List.append_nil]
  cases mode with
  | start => exact absurd rfl hstart
  | done => exact absurd rfl hdone
  | column c =>
    simp only [State.step, Option.map_map]
    congr 1
    funext m
    exact Option.some.inj (hgo m)
  | negation c =>
    simp only [State.step, Option.map_map]
    congr 1
    funext m
    exact Option.some.inj (hgo m)
  | is c =>
    simp only [State.step]
    split_ifs
    · rfl
    · exact hgo _
    · rfl
  | isNot c =>
    simp only [State.step]
    split_ifs
    · rfl
    · rfl
  | comparing op c | pattern negated c | high negated c min =>
    simp only [State.step, Option.map_map]
    rfl
  | low negated c =>
    simp only [State.step, Option.map_map]
    congr 1
    funext m
    exact huse _
  | middle negated c min =>
    simp only [State.step]
    split_ifs
    · exact hgo _
    · rfl
  | opening negated c =>
    simp only [State.step]
    split_ifs
    · exact hgo _
    · rfl
  | element negated c vs =>
    simp only [State.step, Option.map_map]
    congr 1
    funext m
    exact huse _
  | next negated c vs =>
    simp only [State.step]
    split_ifs
    · exact hgo _
    · rfl
    · rfl

/-- The frames of open brackets without `or`: `cs` are the conditions of the innermost one and `css` those
of the others, the last of which go on with the frame `f`. -/
def nested (f : Frame V) (outer : List (Frame V)) :
    List (Clause V) → List (List (Clause V)) → Frame V × List (Frame V)
  | cs, [] => (f.add cs, outer)
  | cs, ds :: css => (⟨[], cs⟩, (nested f outer ds css).1 :: (nested f outer ds css).2)

/-- A position with such frames. -/
def Position.nest (f : Frame V) (outer : List (Frame V)) (cs : List (Clause V))
    (css : List (List (Clause V))) (used : ℕ) (mode : Mode V) : Position V :=
  ⟨(nested f outer cs css).1, (nested f outer cs css).2, used, mode⟩

theorem Position.nest_append (f : Frame V) (outer : List (Frame V)) (cs ds : List (Clause V))
    (css : List (List (Clause V))) (used : ℕ) (mode : Mode V) :
    Position.nest f outer (cs ++ ds) css used mode =
      { Position.nest f outer cs css used mode with
        frame := (Position.nest f outer cs css used mode).frame.add ds } := by
  cases css with
  | nil =>
    rw [Position.nest, Position.nest, nested, nested, Frame.add_add]
  | cons es css => rfl

/-- The conditions of the brackets are those that were read. -/
def Simulates (q : State V) (cs : List (Clause V)) (css : List (List (Clause V))) : Prop :=
  css.length = q.depth ∧ ∀ (D : Values V) (row : List Char → V),
    (∀ ds ∈ cs :: css, ∀ c ∈ ds, c.Holds D row) ↔ ∀ t ∈ q.tests, t.Holds D row

theorem forall_holds_tests (D : Values V) (row : List Char → V) (ts : List (Test V)) :
    (∀ c ∈ ts.map Clause.test, c.Holds D row) ↔ ∀ t ∈ ts, t.Holds D row := by
  simp only [List.forall_mem_map, Clause.holds_test]

/-- **One word.** -/
theorem Simulates.step {q q' : State V} {cs : List (Clause V)} {css : List (List (Clause V))}
    (h : Simulates q cs css) (hq : State.step value q w = some q') :
    ∃ cs' css', Simulates q' cs' css' ∧ ∀ f outer,
      Position.step value (.nest f outer cs css q.used q.mode) w =
        some (.nest f outer cs' css' q'.used q'.mode) := by
  obtain ⟨hlen, hholds⟩ := h
  by_cases hstart : q.mode = .start
  · rw [State.step, hstart] at hq
    dsimp only at hq
    split_ifs at hq with hname hopen
    · cases hq
      refine ⟨cs, css, ⟨hlen, hholds⟩, fun f outer => ?_⟩
      rw [hstart]
      exact if_pos hname
    · cases hq
      refine ⟨[], cs :: css, ⟨congrArg (· + 1) hlen, fun D row => ?_⟩, fun f outer => ?_⟩
      · rw [List.forall_mem_cons, hholds D row]
        exact and_iff_right (List.forall_mem_nil _)
      · rw [hstart, hopen]
        rfl
  by_cases hdone : q.mode = .done
  · rw [State.step, hdone] at hq
    dsimp only at hq
    split_ifs at hq with hand hclose
    · cases hq
      refine ⟨cs, css, ⟨hlen, hholds⟩, fun f outer => ?_⟩
      rw [hdone]
      exact if_pos hand
    · cases hq
      obtain ⟨ds, css, rfl⟩ : ∃ ds css', css = ds :: css' := by
        refine List.exists_cons_of_ne_nil ?_
        rintro rfl
        exact absurd hclose.2 (by rw [← hlen]; exact lt_irrefl 0)
      refine ⟨ds ++ [.group [cs]], css, ⟨?_, fun D row => ?_⟩, fun f outer => ?_⟩
      · show css.length = q.depth - 1
        rw [← hlen]
        rfl
      · rw [← hholds D row, List.forall_mem_cons, List.forall_mem_append, List.forall_mem_singleton,
          Clause.holds_group_singleton, List.forall_mem_cons, List.forall_mem_cons, and_assoc,
          and_left_comm]
      · rw [hdone, hclose.1, Position.nest_append]
        rfl
  · rw [State.step_of_condition hstart hdone] at hq
    obtain ⟨q'', hstep, rfl⟩ := Option.map_eq_some_iff.mp hq
    refine ⟨cs ++ q''.tests.map .test, css, ⟨hlen, fun D row => ?_⟩, fun f outer => ?_⟩
    · rw [State.after, List.forall_mem_append, ← hholds D row, List.forall_mem_cons,
        List.forall_mem_cons, List.forall_mem_append, forall_holds_tests, and_right_comm]
    · have hposition : Position.step value (.nest f outer cs css q.used q.mode) w =
          (State.step value ⟨[], 0, q.used, q.mode⟩ w).map
            (Position.within (.nest f outer cs css q.used q.mode)) := by
        cases hmode : q.mode with
        | start => exact absurd hmode hstart
        | done => exact absurd hmode hdone
        | _ => rfl
      rw [hposition, hstep, Position.nest_append]
      rfl

/-- **All words.** -/
theorem Simulates.run {ws : List (List Char)} {q q' : State V} {cs : List (Clause V)}
    {css : List (List (Clause V))} (h : Simulates q cs css)
    (hq : ws.foldlM (State.step value) q = some q') :
    ∃ cs' css', Simulates q' cs' css' ∧ ∀ f outer,
      ws.foldlM (Position.step value) (.nest f outer cs css q.used q.mode) =
        some (.nest f outer cs' css' q'.used q'.mode) := by
  induction ws generalizing q cs css with
  | nil =>
    cases hq
    exact ⟨cs, css, h, fun _ _ => rfl⟩
  | cons w ws ih =>
    rw [List.foldlM_cons] at hq
    obtain ⟨q₁, hstep, hrest⟩ := Option.bind_eq_some_iff.mp hq
    obtain ⟨cs₁, css₁, h₁, hone⟩ := h.step hstep
    obtain ⟨cs', css', h', hall⟩ := ih h₁ hrest
    exact ⟨cs', css', h', fun f outer => turn_cons (hone f outer) (hall f outer)⟩

/-- **A text without alternatives.** It adds conditions to the current one, which are true of the rows of
which the conditions of the text are true. -/
theorem turns_of_says {ts : List (Test V)} (h : Says value n k t ts) :
    ∃ cs, Turns value n k t (fun f => f.add cs) ∧ ∀ (D : Values V) (row : List Char → V),
      (∀ c ∈ cs, c.Holds D row) ↔ ∀ t ∈ ts, t.Holds D row := by
  obtain ⟨ws, hreads, hadds⟩ := h
  have hnil : Simulates (⟨[], 0, n, .start⟩ : State V) [] [] := by
    refine ⟨rfl, fun D row => ?_⟩
    simp
  obtain ⟨cs, css, ⟨hlen, hholds⟩, hrun⟩ := hnil.run (hadds ⟨[], 0, n, .start⟩ rfl rfl)
  obtain rfl := List.length_eq_zero_iff.mp hlen
  refine ⟨cs, ⟨ws, hreads, ?_⟩, fun D row => ?_⟩
  · rintro ⟨f, outer, used, mode⟩ hmode hused
    obtain rfl : mode = .start := hmode
    obtain rfl : used = n := hused
    have hall := hrun f outer
    rwa [Position.nest, nested, Frame.add_nil] at hall
  · have hall := hholds D row
    rwa [List.forall_mem_singleton] at hall

end Turns

end ChimesUtils.Lib
