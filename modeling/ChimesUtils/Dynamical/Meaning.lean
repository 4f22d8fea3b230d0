import ChimesUtils.Dynamical.Rows
import ChimesUtils.Dynamical.Trim
import ChimesUtils.Lib.Clause

/-!
# The meaning of a chain

The statement of a chain of condition calls, `and` and `or` is a WHERE clause in which `and` binds more
tightly than `or`. Between two conditions the first connective call decides; without one it is `and`.

* `conditions`: the condition calls of a chain, each with the connective before it;
* `Accepts`: what the conditions of a chain say of a row, from left to right;
* `DynamicWrapper.sql_trimAnd_trimOr`: `trim_and` and `trim_or` remove the connective after the last
  condition;
* `Chain.meaning`: a row is selected just when the conditions accept it.
-/

namespace ChimesUtils

open Lib

/-! ## What the conditions say -/

section Meaning

variable (R : Rbatis) (lt like : Bson → Bson → Prop) (row : Text → Bson)

/-- The conditions that a call asks for are true of the row. -/
def Call.TrueOf (c : Call) : Prop := ∀ t ∈ c.tests R, t.Holds (sqlValues lt like) row

/-- The condition calls after a condition, each with the connective before it; `g` is the connective
given so far. -/
def conditions : Option Connective → List Call → List (Connective × Call)
  | _, [] => []
  | g, c :: calls =>
    if c.writes then (g.getD .and, c) :: conditions none calls else conditions (g.or c.effect) calls

/-- What conditions say, from left to right: the first one and those up to the next `or`, or else what
comes after that `or`. -/
def Combined : Prop → List (Connective × Prop) → Prop
  | P, [] => P
  | P, (.and, Q) :: ps => Combined (P ∧ Q) ps
  | P, (.or, Q) :: ps => P ∨ Combined Q ps

/-- What the calls and then `ps` say: from the first condition on the conditions decide. -/
def AcceptsWith (ps : List (Connective × Prop)) : List Call → Prop
  | [] => True
  | c :: calls =>
    if c.writes then Combined (c.TrueOf R lt like row)
      ((conditions none calls).map (Prod.map id (Call.TrueOf R lt like row)) ++ ps)
    else AcceptsWith ps calls

/-- What the calls say. -/
def Accepts : List Call → Prop := AcceptsWith R lt like row []

end Meaning

/-- The statement as a WHERE clause, with the arguments in the place of the placeholders. -/
def DynamicWrapper.whereClause (w : DynamicWrapper) : Option (Clause Bson) :=
  parseClause (placeholderValue w.driverType w.args) w.sql

section Turns

variable {R : Rbatis} (hR : R.template.Standard) (hN : R.Numbered) {d : DriverType} (hd : d ≠ .none) {args : List Bson}
  {m j : ℕ} {s : Text} {F : Frame Bson → Frame Bson}

/-- What is selected when conditions that say `ps` come after the open alternatives. -/
def SelectsFrom (D : Values Bson) (row : Text → Bson) (f : Frame Bson) (ps : List (Connective × Prop)) :
    Prop :=
  (∃ ds ∈ f.before, ∀ c ∈ ds, c.Holds D row) ∨ Combined (∀ c ∈ f.current, c.Holds D row) ps

section Selects

variable {D : Values Bson} {row : Text → Bson} {P : Prop} {ds : List (Clause Bson)}

theorem selectsFrom_nil (f : Frame Bson) : SelectsFrom D row f [] ↔ f.whole.Holds D row := by
  rw [Frame.whole, Clause.holds_group, SelectsFrom, Combined]
  simp only [List.mem_append, List.mem_singleton, or_and_right, exists_or, exists_eq_left]

theorem selectsFrom_add (hds : (∀ d ∈ ds, d.Holds D row) ↔ P) (f : Frame Bson)
    (ps : List (Connective × Prop)) :
    SelectsFrom D row (f.add ds) ps ↔ SelectsFrom D row f ((.and, P) :: ps) := by
  rw [SelectsFrom, SelectsFrom, Combined, Frame.add]
  simp only [List.forall_mem_append, hds]

theorem selectsFrom_split (hds : (∀ d ∈ ds, d.Holds D row) ↔ P) (f : Frame Bson)
    (ps : List (Connective × Prop)) :
    SelectsFrom D row (f.split.add ds) ps ↔ SelectsFrom D row f ((.or, P) :: ps) := by
  rw [SelectsFrom, SelectsFrom, Combined, Frame.add, Frame.split]
  simp only [List.nil_append, hds, List.mem_append, List.mem_singleton, or_and_right, exists_or,
    exists_eq_left, or_assoc]

end Selects

include hR hN hd in
/-- **After a condition.** The pieces of the calls turn the open alternatives as their conditions say. -/
theorem turns_started {calls : List Call} (hcalls : ∀ c ∈ calls, c.joins = true ∧ c.Named)
    (hs : Turns (placeholderValue d args) m j s F) (g : Option Connective)
    (hv : Bound args (m + j) (calls.flatMap (Call.values R))) :
    ∃ G : Frame Bson → Frame Bson,
      Turns (placeholderValue d args) m (j + (calls.flatMap (Call.values R)).length)
        (s ++ piecesText (pieces R d Call.effect (m + j) g calls)) (G ∘ F) ∧
      ∀ (lt like : Bson → Bson → Prop) (row : Text → Bson) (f : Frame Bson)
          (ps : List (Connective × Prop)),
        SelectsFrom (sqlValues lt like) row (G f) ps ↔ SelectsFrom (sqlValues lt like) row f
          ((conditions g calls).map (Prod.map id (Call.TrueOf R lt like row)) ++ ps) := by
  induction calls generalizing j s F g with
  | nil =>
    refine ⟨id, ?_, fun lt like row f ps => Iff.rfl⟩
    rw [pieces, piecesText, List.flatMap_nil, List.flatMap_nil, List.append_nil]
    exact hs
  | cons c calls ih =>
    rw [List.forall_mem_cons] at hcalls
    obtain ⟨⟨hjoins, hname⟩, hcalls⟩ := hcalls
    rw [List.flatMap_cons] at hv
    rw [List.flatMap_cons, pieces, conditions, List.length_append]
    by_cases hc : c.writes = true
    · have hlen := Call.length_values (R := R) hc
      have hrest := hv.append.2
      rw [hlen, Nat.add_assoc] at hrest
      obtain ⟨ds, hturns, hds⟩ := turns_of_says (c.says_condition hN hd hR hc hname hv.append.1)
      rw [if_pos hc, if_pos hc, piecesText, List.flatMap_cons, hlen, ← Nat.add_assoc,
        Nat.add_assoc m]
      simp only [← List.append_assoc]
      cases hword : g.getD .and with
      | and =>
        obtain ⟨G, hG, hsel⟩ := ih hcalls (hs.and hturns) none hrest
        refine ⟨G ∘ fun f => f.add ds, hG, fun lt like row f ps => ?_⟩
        exact (hsel lt like row _ ps).trans (selectsFrom_add (hds (sqlValues lt like) row) f _)
      | or =>
        obtain ⟨G, hG, hsel⟩ := ih hcalls (hs.or hturns) none hrest
        refine ⟨G ∘ fun f => f.split.add ds, hG, fun lt like row f ps => ?_⟩
        exact (hsel lt like row _ ps).trans (selectsFrom_split (hds (sqlValues lt like) row) f _)
    · have hvalues := (Call.nothing_of_not_writes (R := R) (by simpa using hc)).2 hjoins
      rw [hvalues, List.nil_append] at hv
      rw [if_neg hc, if_neg hc, hvalues, List.length_nil, Nat.zero_add]
      exact ih hcalls hs _ hv

include hR hN hd in
/-- **From the start.** The text of the calls is a clause that says what they say, or none of them writes
a condition. -/
theorem turns_fresh {calls : List Call} (hcalls : ∀ c ∈ calls, c.joins = true ∧ c.Named)
    (g : Option Connective) (hv : Bound args m (calls.flatMap (Call.values R))) :
    ((∀ c ∈ calls, c.writes = false) ∧ pieces R d Call.effect m g calls = []) ∨
      pieces R d Call.effect m g calls ≠ [] ∧ ∃ F : Frame Bson → Frame Bson,
        Turns (placeholderValue d args) m (calls.flatMap (Call.values R)).length
          (joinText (pieces R d Call.effect m g calls)) F ∧
        ∀ (lt like : Bson → Bson → Prop) (row : Text → Bson) (ps : List (Connective × Prop)),
          SelectsFrom (sqlValues lt like) row (F .empty) ps ↔ AcceptsWith R lt like row ps calls := by
  induction calls generalizing g with
  | nil => exact Or.inl ⟨List.forall_mem_nil _, rfl⟩
  | cons c calls ih =>
    rw [List.forall_mem_cons] at hcalls
    obtain ⟨⟨hjoins, hname⟩, hcalls⟩ := hcalls
    rw [List.flatMap_cons] at hv
    rw [List.flatMap_cons, pieces, List.length_append, List.forall_mem_cons]
    by_cases hc : c.writes = true
    · have hlen := Call.length_values (R := R) hc
      have hrest := hv.append.2
      rw [hlen] at hrest
      obtain ⟨ds, hturns, hds⟩ := turns_of_says (c.says_condition hN hd hR hc hname hv.append.1)
      obtain ⟨G, hG, hsel⟩ := turns_started hR hN hd hcalls hturns none hrest
      rw [if_pos hc, hlen]
      refine Or.inr ⟨List.cons_ne_nil _ _, _, hG, fun lt like row ps => (hsel lt like row _ ps).trans ?_⟩
      have htrue : (∀ c ∈ ds, c.Holds (sqlValues lt like) row) ↔ c.TrueOf R lt like row :=
        hds (sqlValues lt like) row
      rw [AcceptsWith, if_pos hc]
      simp only [SelectsFrom, Frame.add, Frame.empty, List.nil_append, htrue, List.not_mem_nil,
        false_and, exists_false, false_or]
    · have hvalues := (Call.nothing_of_not_writes (R := R) (by simpa using hc)).2 hjoins
      rw [hvalues, List.nil_append] at hv
      rw [if_neg hc, hvalues, List.length_nil, Nat.zero_add]
      refine (ih hcalls _ hv).imp (fun h => ⟨⟨by simpa using hc, h.1⟩, h.2⟩) ?_
      rintro ⟨hne, F, hturns, hsel⟩
      refine ⟨hne, F, hturns, fun lt like row ps => (hsel lt like row ps).trans ?_⟩
      rw [AcceptsWith, if_neg hc]

end Turns

/-! ## The connective at the end -/

section Trim

variable {R : Rbatis} (hR : R.template.Standard) {s p : Text}

/-- No letter of the text ends a condition. -/
def Unclosed (p : Text) : Prop := p ≠ [] ∧ ∀ c ∈ p, ¬ (slotLast c ∨ c = ')' ∨ c.toLower = 'l')

theorem Closes.not_suffix (hs : Closes s) (hp : Unclosed p) : ¬ p <:+ s := by
  obtain ⟨r, c, rfl, hc⟩ := hs
  exact fun hsuffix => hp.2 c (mem_of_isSuffix_concat hp.1 hsuffix) hc

theorem Closes.not_prefix (hs : Closes s) (hp : Unclosed p) : ¬ s <+: p := by
  obtain ⟨r, c, rfl, hc⟩ := hs
  exact fun hstart => hp.2 c (hstart.subset (by simp)) hc

/-- The text does not start with white space or with a connective. -/
structure Opens (s : Text) : Prop where
  blank : ∀ c ∈ s.head?, isWhitespace c = false
  connective : ∀ k : Connective, ¬ k.word ++ [' '] <+: s

/-- A connective without the blank after it. -/
def leftText (g : Option Connective) : Text := (g.map fun k => [' '] ++ k.word).getD []

theorem leftText_last (hs : Closes s) (g : Option Connective) :
    ∃ r c, s ++ leftText g = r ++ [c] ∧ isWhitespace c = false := by
  cases g with
  | none =>
    obtain ⟨r, c, rfl, hc⟩ := hs
    exact ⟨r, c, List.append_nil _, closing_not_whitespace hc⟩
  | some k =>
    cases k with
    | and => exact ⟨s ++ " an".toList, 'd', by simp [leftText, Connective.word], by decide⟩
    | or => exact ⟨s ++ " o".toList, 'r', by simp [leftText, Connective.word], by decide⟩

theorem trim_leftText (ho : Opens s) (hs : Closes s) (g : Option Connective) {blanks : Text}
    (hblanks : blanks = [] ∨ blanks = [' ']) :
    trim (s ++ leftText g ++ blanks) = s ++ leftText g := by
  have hstart : (s ++ leftText g ++ blanks).dropWhile isWhitespace = s ++ leftText g ++ blanks := by
    obtain ⟨c, r, rfl⟩ : ∃ c r, s = c :: r := by
      obtain ⟨r, c, rfl, -⟩ := hs
      exact List.exists_cons_of_ne_nil (by simp)
    refine List.dropWhile_eq_self_iff.mpr fun _ => ?_
    simpa using ho.blank c rfl
  obtain ⟨r, c, htext, hc⟩ := leftText_last hs g
  rw [trim, hstart, htext]
  rcases hblanks with rfl | rfl
  · rw [List.append_nil]
    exact trimEnd_concat r hc
  · exact trimEnd_concat_space r hc

theorem trimKeyword_leftText (ho : Opens s) (hs : Closes s) (k : Connective) (g : Option Connective) :
    trimEndMatches ([' '] ++ k.word) (trimStartMatches (k.word ++ [' ']) (s ++ leftText g)) =
      s ++ leftText (if g = some k then none else g) := by
  have hunclosed : Unclosed (k.word ++ [' ']) ∧ Unclosed ([' '] ++ k.word) := by
    cases k <;> simp [Unclosed, slotLast, Connective.word]
  have hstart : ¬ k.word ++ [' '] <+: s ++ leftText g := by
    intro hleads
    rcases List.prefix_or_prefix_of_prefix hleads (List.prefix_append s _) with h | h
    · exact ho.connective k h
    · exact hs.not_prefix hunclosed.1 h
  rw [trimStartMatches_of_not hstart]
  cases g with
  | none =>
    rw [if_neg (Option.some_ne_none k).symm, leftText, Option.map_none, Option.getD_none,
      List.append_nil, trimEndMatches_of_not (hs.not_suffix hunclosed.2)]
  | some k' =>
    by_cases hk : k' = k
    · have hpower := trimEndMatches_power hunclosed.2.1 1 s
      rw [trimEndMatches_of_not (hs.not_suffix hunclosed.2), power_succ, power_zero,
        List.append_nil] at hpower
      rw [hk, if_pos rfl, leftText, leftText, Option.map_some, Option.getD_some, Option.map_none,
        Option.getD_none, hpower, List.append_nil]
    · rw [if_neg (fun h => hk (Option.some.inj h))]
      refine trimEndMatches_of_not fun hsuffix => ?_
      cases k' with
      | and =>
        have htext : s ++ leftText (some .and) = s ++ " an".toList ++ ['d'] := by
          simp [leftText, Connective.word]
        rw [htext] at hsuffix
        have hmem := mem_of_isSuffix_concat hunclosed.2.1 hsuffix
        cases k with
        | and => exact hk rfl
        | or => exact absurd hmem (by decide)
      | or =>
        have htext : s ++ leftText (some .or) = s ++ " o".toList ++ ['r'] := by
          simp [leftText, Connective.word]
        rw [htext] at hsuffix
        have hmem := mem_of_isSuffix_concat hunclosed.2.1 hsuffix
        cases k with
        | and => exact absurd hmem (by decide)
        | or => exact hk rfl

include hR in
theorem DynamicWrapper.sql_trimAnd (w : DynamicWrapper) :
    (w.trimAnd R).sql = trimEndMatches ([' '] ++ Connective.and.word)
      (trimStartMatches (Connective.and.word ++ [' ']) (trim w.sql)) := by
  unfold trimAnd trimKeyword
  rw [hR.eq_words]
  rfl

include hR in
theorem DynamicWrapper.sql_trimOr (w : DynamicWrapper) :
    (w.trimOr R).sql = trimEndMatches ([' '] ++ Connective.or.word)
      (trimStartMatches (Connective.or.word ++ [' ']) (trim w.sql)) := by
  unfold trimOr trimKeyword
  rw [hR.eq_words]
  rfl

include hR in
/-- **`trim_and` and then `trim_or`** remove the connective at the end, whichever it is. -/
theorem DynamicWrapper.sql_trimAnd_trimOr (ho : Opens s) (hs : Closes s) {g : Option Connective}
    {w : DynamicWrapper} (hw : w.sql = s ++ gapText g) : ((w.trimAnd R).trimOr R).sql = s := by
  have hgap : ∃ blanks, (blanks = [] ∨ blanks = [' ']) ∧ gapText g = leftText g ++ blanks := by
    cases g with
    | none => exact ⟨[], Or.inl rfl, rfl⟩
    | some k => exact ⟨[' '], Or.inr rfl, by cases k <;> rfl⟩
  obtain ⟨blanks, hblanks, hgap⟩ := hgap
  rw [DynamicWrapper.sql_trimOr hR, DynamicWrapper.sql_trimAnd hR, hw, hgap, ← List.append_assoc,
    trim_leftText ho hs g hblanks, trimKeyword_leftText ho hs]
  have hagain := trim_leftText ho hs (if g = some .and then none else g) (Or.inl rfl)
  rw [List.append_nil] at hagain
  rw [hagain, trimKeyword_leftText ho hs]
  have hnone : (if (if g = some Connective.and then none else g) = some .or then none
      else if g = some .and then none else g) = none := by
    cases g with
    | none => rfl
    | some k => cases k <;> rfl
  rw [hnone]
  exact List.append_nil s

include hR in
theorem DynamicWrapper.sql_trimAnd_trimOr_nil {w : DynamicWrapper} (hw : w.sql = []) :
    ((w.trimAnd R).trimOr R).sql = [] := by
  have htrim : ∀ p q : Text, p ≠ [] → q ≠ [] → trimEndMatches p (trimStartMatches q (trim [])) = [] := by
    intro p q hp hq
    have hnil : trim [] = [] := rfl
    rw [hnil, trimStartMatches_of_not (by simpa using hq), trimEndMatches_of_not (by simpa using hp)]
  rw [DynamicWrapper.sql_trimOr hR, DynamicWrapper.sql_trimAnd hR, hw]
  rw [htrim _ _ (by decide) (by decide), htrim _ _ (by decide) (by decide)]

theorem DynamicWrapper.trimAnd_trimOr_eq (w : DynamicWrapper) :
    ((w.trimAnd R).trimOr R).driverType = w.driverType ∧ ((w.trimAnd R).trimOr R).args = w.args := by
  simp only [trimOr, trimAnd, and_self]

/-- The columns of a call do not start with white space. -/
def Call.Upright (c : Call) : Prop := ∀ t ∈ c.texts, ∀ a ∈ t.head?, isWhitespace a = false

theorem opens_name {c : Text} (hc : isName c = true) (hblank : ∀ a ∈ c.head?, isWhitespace a = false)
    (t : Text) : Opens (c ++ ' ' :: t) := by
  have hword := isWord_of_isName hc
  refine ⟨?_, ?_⟩
  · rw [List.head?_append_of_ne_nil _ hword.1]
    exact hblank
  · intro k hstart
    have hspace : ' ' ∉ c := fun hmem => absurd (hword.2 ' ' hmem) (by decide)
    have hkspace : ' ' ∉ k.word := by cases k <;> decide
    obtain ⟨r, hr⟩ := hstart
    rw [List.append_assoc] at hr
    have heq : k.word = c := eq_of_append_cons hkspace hspace hr
    rw [← heq] at hc
    cases k
    · exact absurd hc (by decide)
    · exact absurd hc (by decide)

theorem Call.conditionText_start (d : DriverType) (n : ℕ) {c : Call} (hc : c.writes = true) :
    (∃ column ∈ c.texts, ∃ t, c.conditionText R d n = column ++ ' ' :: t) ∨
      ∃ t, c.conditionText R d n = '(' :: t := by
  cases c with
  | allEq v =>
    cases v with
    | document map => exact Or.inr ⟨_, List.append_assoc _ _ _⟩
    | _ => cases hc
  | and | or | having | orderBy | orderBys | groupBy | limit | trimSpace | setFormats => cases hc
  | isNull c | isNotNull c => exact Or.inl ⟨c, List.mem_singleton_self c, _, List.append_assoc _ _ _⟩
  | _ c _ => exact Or.inl ⟨c, List.mem_singleton_self c, _, by simp [conditionText]; rfl⟩

theorem opens_pieces (d : DriverType) {calls : List Call} (hcalls : ∀ c ∈ calls, c.Named ∧ c.Upright)
    (n : ℕ) (g : Option Connective) (hne : pieces R d Call.effect n g calls ≠ []) :
    Opens (joinText (pieces R d Call.effect n g calls)) := by
  induction calls generalizing n g with
  | nil => exact absurd rfl hne
  | cons c calls ih =>
    obtain ⟨⟨hname, hupright⟩, hcalls⟩ := List.forall_mem_cons.mp hcalls
    rw [pieces] at hne ⊢
    by_cases hc : c.writes = true
    · rw [if_pos hc, joinText]
      rcases Call.conditionText_start (R := R) d n hc with ⟨column, hmem, t, ht⟩ | ⟨t, ht⟩
      · rw [ht, List.append_assoc]
        exact opens_name (hname column hmem) (hupright column hmem) _
      · rw [ht]
        refine ⟨by simp; decide, fun k hstart => ?_⟩
        cases k <;> simp [Connective.word] at hstart
    · rw [if_neg hc] at hne ⊢
      exact ih hcalls n _ hne

theorem closes_joinText {ps : List (Connective × Text)} (hps : ∀ p ∈ ps, Closes p.2) (hne : ps ≠ []) :
    Closes (joinText ps) := by
  have hpieces : ∀ ps : List (Connective × Text), (∀ p ∈ ps, Closes p.2) → ps ≠ [] →
      Closes (piecesText ps) := by
    intro ps hps hne
    induction ps with
    | nil => exact absurd rfl hne
    | cons p ps ih =>
      obtain ⟨hp, hps⟩ := List.forall_mem_cons.mp hps
      rw [piecesText, List.flatMap_cons]
      by_cases hnil : ps = []
      · rw [hnil, List.flatMap_nil, List.append_nil]
        exact hp.append _
      · exact (ih hps hnil).append _
  cases ps with
  | nil => exact absurd rfl hne
  | cons p ps =>
    obtain ⟨hp, hps⟩ := List.forall_mem_cons.mp hps
    by_cases hnil : ps = []
    · rw [hnil, joinText, piecesText, List.flatMap_nil, List.append_nil]
      exact hp
    · exact (hpieces ps hps hnil).append _

theorem closes_of_mem_pieces {R : Rbatis} (hR : R.template.Standard) (hN : R.Numbered) {d : DriverType} (hd : d ≠ .none)
    {calls : List Call} {n : ℕ} {g : Option Connective} :
    ∀ p ∈ pieces R d Call.effect n g calls, Closes p.2 := by
  induction calls generalizing n g with
  | nil => exact List.forall_mem_nil _
  | cons c calls ih =>
    rw [pieces]
    split_ifs with hc
    · exact List.forall_mem_cons.mpr ⟨Call.closes hR hN hd n hc, ih⟩
    · exact ih

end Trim

/-! ## The statement of a chain -/

section Statement

variable {R : Rbatis} (hR : R.template.Standard) (hN : R.Numbered) {d : DriverType} (hd : d ≠ .none)
  {ch : Chain} (hcalls : ∀ c ∈ ch.calls, c.joins = true ∧ c.Named ∧ c.Upright)

include hR hN hd hcalls in
theorem Chain.sql_turns : ∃ s g, (ch.run R (.new d)).sql = s ++ gapText g ∧
    (((∀ c ∈ ch.calls, c.writes = false) ∧ s = [] ∧ g = none) ∨ Opens s ∧ Closes s ∧
      ∃ clause, parseClause (placeholderValue d (ch.run R (.new d)).args) s = some clause ∧
        ∀ (lt like : Bson → Bson → Prop) (row : Text → Bson),
          clause.Holds (sqlValues lt like) row ↔ Accepts R lt like row ch.calls) := by
  have hT : R.template.Plain := hR.plain
  have hargs : (ch.run R (.new d)).args = ch.calls.flatMap (Call.values R) :=
    (Chain.refines hN hT hd ch).args.trans ch.args_draft
  obtain ⟨tail, hnone, -, hsql⟩ := run_fresh hR hN hd (fun c hc => (hcalls c hc).1) (Holds.new d) none
  rw [← Chain.run_eq_calls] at hsql
  refine ⟨_, tail, hsql, ?_⟩
  rw [hargs]
  rcases turns_fresh hR hN hd (fun c hc => ⟨(hcalls c hc).1, (hcalls c hc).2.1⟩) none
    (bound_zero (ch.calls.flatMap (Call.values R))) with ⟨hwrites, hnil⟩ | ⟨hne, F, hturns, hsel⟩
  · exact Or.inl ⟨hwrites, by rw [hnil]; rfl, hnone hnil⟩
  · exact Or.inr ⟨opens_pieces d (fun c hc => (hcalls c hc).2) 0 none hne,
      closes_joinText (closes_of_mem_pieces hR hN hd) hne, _, parseClause_of_turns hturns,
      fun lt like row => (selectsFrom_nil _).symm.trans (hsel lt like row [])⟩

end Statement

/-- Two alternatives, the second one with a list, and a connective after them. -/
def orChain : Chain :=
  .call (.eq "kind".toList (.int64 3)) <|
  .call .or <|
  .call (.isNull "day".toList) <|
  .call (.in_ "place".toList [.int64 4, .int64 5]) <|
  .call .or .nil

theorem orChain_calls : ∀ c ∈ orChain.calls, c.joins = true ∧ c.Named ∧ c.Upright := by
  have hkind : isWhitespace 'k' = false := by decide
  have hday : isWhitespace 'd' = false := by decide
  have hplace : isWhitespace 'p' = false := by decide
  simp only [orChain, Chain.calls, List.forall_mem_cons]
  refine ⟨⟨rfl, by decide, ?_⟩, ⟨rfl, by decide, ?_⟩, ⟨rfl, by decide, ?_⟩, ⟨rfl, by decide, ?_⟩,
    ⟨rfl, by decide, ?_⟩, List.forall_mem_nil _⟩
  all_goals simp [Call.Upright, Call.texts, hkind, hday, hplace]

end ChimesUtils
