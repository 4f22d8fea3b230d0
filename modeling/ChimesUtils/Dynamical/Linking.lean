import ChimesUtils.Dynamical.Meaning
import ChimesUtils.Dynamical.Push
import ChimesUtils.Lib.Places

/-!
# Wrappers that are built apart

A wrapper can be built apart and be linked with `push_wrapper`, or its calls can be made in place. The
statement and the arguments are the same, as long as the renumbering does not clash.

* `Call.places`: the condition of a call, for all numbers of its first placeholder;
* `Chain.pushWrapper_inPlace`: linking agrees with building in place;
* `Chain.meaning_linked`: linking a wrapper in brackets after `and` or `or`.
-/

namespace ChimesUtils

open Lib

/-! ## Conditions with open numbers -/

section Places

variable (R : Rbatis)

/-- The text is the same for all drivers and all numbers of its first placeholder, and has `k`
placeholders. -/
def Uniform (k : ℕ) (f : DriverType → ℕ → Text) : Prop :=
  ∃ P : Places marksOfPlaceholders, P.count = k ∧ ∀ d n, f d n = P.text (R.stmtConvert d) n

variable {R} {k k' : ℕ} {f g : DriverType → ℕ → Text} {t : Text}

/-- A text that stands between placeholders. -/
structure Between (t : Text) : Prop where
  clean : Avoids marksOfPlaceholders t
  starts : ∀ c ∈ t.head?, c.isDigit = false

theorem Uniform.congr (hf : Uniform R k f) (hk : k = k') (hfg : ∀ d n, f d n = g d n) :
    Uniform R k' g := by
  rw [← hk, ← funext₂ hfg]
  exact hf

theorem Uniform.append (hf : Uniform R k f) (hg : Uniform R k' g) :
    Uniform R (k + k') (fun d n => f d n ++ g d (n + k)) := by
  obtain ⟨P, rfl, hP⟩ := hf
  obtain ⟨Q, rfl, hQ⟩ := hg
  refine ⟨P.append Q, rfl, fun d n => ?_⟩
  rw [Places.text_append, ← hP, ← hQ]

theorem uniform_text (ht : Between t) : Uniform R 0 fun _ _ => t :=
  ⟨.letters t ht.clean ht.starts, rfl, fun _ n => (Places.text_letters _ ht.clean ht.starts n).symm⟩

theorem uniform_hole (hne : t ≠ []) (ht : Between t) :
    Uniform R 1 fun d n => t ++ R.stmtConvert d n :=
  ⟨.hole t hne ht.clean ht.starts, rfl, fun _ n => (Places.text_hole _ hne ht.clean ht.starts n).symm⟩

theorem Between.append {s : Text} (hne : s ≠ []) (hs : Between s) (ht : Avoids marksOfPlaceholders t) :
    Between (s ++ t) := by
  refine ⟨hs.clean.append ht, ?_⟩
  rw [List.head?_append_of_ne_nil _ hne]
  exact hs.starts

theorem between_name {c : Text} (hc : isName c = true) : c ≠ [] ∧ Between c := by
  have hword := isWord_of_isName hc
  rw [isName, Bool.and_eq_true, Bool.and_eq_true] at hc
  refine ⟨hword.1, fun a ha hmark => ?_, fun a ha => ?_⟩
  · have hchar := List.all_eq_true.mp hc.1.2 a ha
    simp only [marksOfPlaceholders, List.mem_cons, List.not_mem_nil, or_false] at hmark
    rcases hmark with rfl | rfl | rfl <;> revert hchar <;> decide
  · have hhead := hc.1.1
    rw [Option.mem_def.mp ha] at hhead
    simpa using hhead

theorem between_column {c : Text} (hc : isName c = true) (ht : Avoids marksOfPlaceholders t) :
    c ++ t ≠ [] ∧ Between (c ++ t) := by
  obtain ⟨hne, hbetween⟩ := between_name hc
  exact ⟨by simp [hne], hbetween.append hne ht⟩

theorem uniform_column {c : Text} (hc : isName c = true) (ht : Avoids marksOfPlaceholders t) :
    Uniform R 1 fun d n => c ++ t ++ R.stmtConvert d n :=
  uniform_hole (between_column hc ht).1 (between_column hc ht).2

theorem uniform_elements {α : Type} (vs : List α) : Uniform R vs.length fun d n =>
    ((vs.zipIdx n).map fun v => [' '] ++ R.stmtConvert d v.2 ++ [' ']).flatMap ([','] ++ ·) := by
  induction vs with
  | nil => exact uniform_text ⟨List.forall_mem_nil _, by simp⟩
  | cons v vs ih =>
    have hplace : Uniform R 1 fun d n => ", ".toList ++ R.stmtConvert d n :=
      uniform_hole (by simp) ⟨by simp [Avoids], by simp⟩
    have hblank : Uniform R 0 fun _ _ => [' '] := uniform_text ⟨by simp [Avoids], by simp⟩
    refine ((hplace.append hblank).append ih).congr (Nat.add_comm _ _) fun d n => ?_
    simp [List.zipIdx_cons]

theorem uniform_membership {c : Text} (hc : isName c = true) (ht : Avoids marksOfPlaceholders t)
    {vs : List Bson} (hne : vs ≠ []) :
    Uniform R vs.length fun d n => c ++ t ++ Call.membership R d n vs ++ [')'] := by
  obtain ⟨v, vs, rfl⟩ := List.exists_cons_of_ne_nil hne
  have hfirst : Uniform R 1 fun d n => c ++ (t ++ [' ']) ++ R.stmtConvert d n :=
    uniform_column hc (ht.append (by simp [Avoids]))
  have hblank : Uniform R 0 fun _ _ => [' '] := uniform_text ⟨by simp [Avoids], by simp⟩
  have hclose : Uniform R 0 fun _ _ => [')'] := uniform_text ⟨by simp [Avoids], by simp⟩
  have hall := ((hfirst.append hblank).append (uniform_elements vs)).append hclose
  refine hall.congr (Nat.add_comm 1 vs.length) fun d n => ?_
  rw [Holds.membership_cons]
  simp

theorem uniform_equations {map : List (Text × Bson)} (hne : map ≠ [])
    (hnames : ∀ t ∈ map.map Prod.fst, isName t = true) :
    Uniform R map.length fun d n => Call.equations R d n map := by
  induction map with
  | nil => exact absurd rfl hne
  | cons e map ih =>
    rw [List.map_cons, List.forall_mem_cons] at hnames
    have hfirst : Uniform R 1 fun d n => e.1 ++ " = ".toList ++ R.stmtConvert d n :=
      uniform_column hnames.1 (by simp [Avoids])
    cases map with
    | nil =>
      refine hfirst.congr rfl fun d n => ?_
      simp [Call.equations]
    | cons e' map =>
      have hword : Uniform R 0 fun _ _ => " and ".toList := uniform_text ⟨by simp [Avoids], by simp⟩
      have hall := (hfirst.append hword).append (ih (List.cons_ne_nil _ _) hnames.2)
      exact hall.congr (Nat.add_comm _ _) fun _ _ => List.intercalate_cons_cons.symm

theorem avoids_null (hR : R.template.Standard) : Avoids marksOfPlaceholders R.template.null.leftSpace := by
  intro c hc hmark
  have hword := (hR.plain.leftSpace (k := R.template.null) (by simp [Template.keywords])).2 c hc
  have hno : ∀ a ∈ marksOfPlaceholders, Keyword.wordChar a = false := by
    simp [marksOfPlaceholders, Keyword.wordChar]
  rw [hno c hmark] at hword
  cases hword

/-- **The condition of a call** is the same for all numbers of its first placeholder. -/
theorem Call.uniform (hR : R.template.Standard) {c : Call} (hc : c.writes = true) (hname : c.Named) :
    Uniform R c.argCount fun d n => c.conditionText R d n := by
  cases c with
  | eq c v | ne c v | gt c v | ge c v | lt c v | le c v | like c v | likeLeft c v | likeRight c v
  | notLike c v => exact uniform_column (hname c (by simp [texts])) (by simp [Avoids])
  | between c min max | notBetween c min max =>
    have hword : Uniform R 1 fun d n => " and ".toList ++ R.stmtConvert d n :=
      uniform_hole (by simp) ⟨by simp [Avoids], by simp⟩
    exact (uniform_column (hname c (by simp [texts])) (by simp [Avoids])).append hword
  | isNull c =>
    have hcolumn := between_column (t := " is".toList ++ R.template.null.leftSpace)
      (hname c (by simp [texts])) (Avoids.append (by simp [Avoids]) (avoids_null hR))
    rw [← List.append_assoc] at hcolumn
    exact uniform_text hcolumn.2
  | isNotNull c =>
    have hcolumn := between_column (t := " is not".toList ++ R.template.null.leftSpace)
      (hname c (by simp [texts])) (Avoids.append (by simp [Avoids]) (avoids_null hR))
    rw [← List.append_assoc] at hcolumn
    exact uniform_text hcolumn.2
  | inArray c vs | in_ c vs | notIn c vs =>
    exact uniform_membership (hname c (by simp [texts])) (by simp [Avoids]) (by simpa [writes] using hc)
  | allEq v =>
    cases v with
    | document map =>
      have hopen : Uniform R 0 fun _ _ => ['('] := uniform_text ⟨by simp [Avoids], by simp⟩
      have hclose : Uniform R 0 fun _ _ => [')'] := uniform_text ⟨by simp [Avoids], by simp⟩
      have hall := (hopen.append (uniform_equations (by simpa [writes] using hc) hname)).append hclose
      rwa [Nat.zero_add, Nat.add_zero] at hall
    | _ => cases hc
  | _ => cases hc

theorem between_connective (k : Connective) : Between k.text := by
  cases k <;> exact ⟨by simp [Avoids, Connective.text], by simp [Connective.text]⟩

theorem uniform_pieces (hR : R.template.Standard) {calls : List Call} (hcalls : ∀ c ∈ calls, c.joins = true ∧ c.Named)
    (g : Option Connective) : Uniform R (calls.flatMap (Call.values R)).length fun d n =>
      piecesText (pieces R d Call.effect n g calls) := by
  induction calls generalizing g with
  | nil => exact uniform_text ⟨List.forall_mem_nil _, by simp⟩
  | cons c calls ih =>
    obtain ⟨⟨hjoins, hname⟩, hcalls⟩ := List.forall_mem_cons.mp hcalls
    rw [List.flatMap_cons, List.length_append]
    by_cases hc : c.writes = true
    · have hword : Uniform R 0 fun _ _ => (g.getD .and).text := uniform_text (between_connective _)
      have hall := (hword.append (Call.uniform hR hc hname)).append (ih hcalls none)
      refine hall.congr (by rw [Call.length_values hc, Nat.zero_add]) fun d n => ?_
      rw [pieces, if_pos hc, piecesText, piecesText, List.flatMap_cons, Nat.zero_add, Nat.add_zero]
    · refine (ih hcalls (g.or c.effect)).congr ?_ fun d n => ?_
      · rw [(Call.nothing_of_not_writes (by simpa using hc)).2 hjoins, List.length_nil, Nat.zero_add]
      · rw [pieces, if_neg hc]

theorem uniform_joinText (hR : R.template.Standard) {calls : List Call} (hcalls : ∀ c ∈ calls, c.joins = true ∧ c.Named)
    (g : Option Connective) : Uniform R (calls.flatMap (Call.values R)).length fun d n =>
      joinText (pieces R d Call.effect n g calls) := by
  induction calls generalizing g with
  | nil => exact uniform_text ⟨List.forall_mem_nil _, by simp⟩
  | cons c calls ih =>
    obtain ⟨⟨hjoins, hname⟩, hcalls⟩ := List.forall_mem_cons.mp hcalls
    rw [List.flatMap_cons, List.length_append]
    by_cases hc : c.writes = true
    · have hall := (Call.uniform hR hc hname).append (uniform_pieces hR hcalls none)
      refine hall.congr (by rw [Call.length_values hc]) fun d n => ?_
      rw [pieces, if_pos hc, joinText]
    · refine (ih hcalls (g.or c.effect)).congr ?_ fun d n => ?_
      · rw [(Call.nothing_of_not_writes (by simpa using hc)).2 hjoins, List.length_nil, Nat.zero_add]
      · rw [pieces, if_neg hc]

end Places

/-! ## Linking -/

section Link

variable {R : Rbatis} (hN : R.Numbered) {d : DriverType} (hd : d ≠ .none)

/-- Moving `k` placeholders on by `a` renumbers them all, where they have numbers. -/
def Renumbers (d : DriverType) (a k : ℕ) : Prop := d = .postgres ∨ d = .mssql → a = 0 ∨ NoClash a k

include hN hd in
/-- **Linking moves the placeholders on.** -/
theorem pushWrapper_uniform {k : ℕ} {f : DriverType → ℕ → Text} (hf : Uniform R k f)
    {w v : DynamicWrapper} (hw : w.driverType = d) (hv : v.sql = f d 0) (hk : v.args.length = k)
    (hclash : Renumbers d w.args.length k) :
    (w.pushWrapper R v).sql = w.sql ++ f d w.args.length := by
  obtain ⟨P, rfl, hP⟩ := hf
  have hplain : (∀ i, R.stmtConvert d i = ['?']) → f d 0 = f d w.args.length := by
    intro hconst
    rw [hP, hP]
    exact render_congr _ fun i _ => (hconst _).trans (hconst _).symm
  have hnumbered : ∀ (_ : d = .postgres ∨ d = .mssql),
      DynamicWrapper.pushLoop R d w.args.length v.args.length v.sql = f d w.args.length := by
    intro hcase
    have htoken : R.stmtConvert d = fun i => (Numeral.ofNat (i + 1)).token (marker d) :=
      funext (stmtConvert_token hN hcase)
    have hmark : (marker d).first ∈ marksOfPlaceholders := by
      rcases hcase with rfl | rfl <;> decide
    have hmove := P.foldl_replace_text hmark (hclash hcase)
    rw [hv, hP, hP, htoken, ← hmove, DynamicWrapper.pushLoop, hk, htoken]
    simp only [Nat.add_right_comm _ _ 1]
  cases d with
  | none => exact absurd rfl hd
  | mysql =>
    rw [DynamicWrapper.pushWrapper, DynamicWrapper.push, hw, hv, hplain hN.mysql]
  | sqlite =>
    rw [DynamicWrapper.pushWrapper, DynamicWrapper.push, hw, hv, hplain hN.sqlite]
  | postgres => rw [pushWrapper_sql (Or.inl rfl) hw, hnumbered (Or.inl rfl)]
  | mssql => rw [pushWrapper_sql (Or.inr rfl) hw, hnumbered (Or.inr rfl)]

/-! ### Building in place -/

/-- What calls leave as it is. -/
structure Keeps (w w' : DynamicWrapper) : Prop where
  driver : w'.driverType = w.driverType
  dml : w'.dml = w.dml
  formats : w'.formats = w.formats

theorem Keeps.trans {w w' w'' : DynamicWrapper} (h : Keeps w w') (h' : Keeps w' w'') : Keeps w w'' :=
  ⟨h'.driver.trans h.driver, h'.dml.trans h.dml, h'.formats.trans h.formats⟩

theorem Keeps.eq {w w' w'' : DynamicWrapper} (h' : Keeps w w') (h'' : Keeps w w'')
    (hsql : w'.sql = w''.sql) (hargs : w'.args = w''.args) : w' = w'' := by
  have hdriver := h'.driver.trans h''.driver.symm
  have hdml := h'.dml.trans h''.dml.symm
  have hformats := h'.formats.trans h''.formats.symm
  cases w'
  cases w''
  simp only [DynamicWrapper.mk.injEq]
  exact ⟨hdriver, hdml, hsql, hargs, hformats⟩

theorem keeps_connect (R : Rbatis) (k : Text) (w : DynamicWrapper) : Keeps w (w.connect R k) := by
  unfold DynamicWrapper.connect
  split_ifs <;> exact ⟨rfl, rfl, rfl⟩

theorem args_connect (R : Rbatis) (k : Text) (w : DynamicWrapper) : (w.connect R k).args = w.args := by
  unfold DynamicWrapper.connect
  split_ifs <;> rfl

theorem keeps_applyAll {es : List Edit} (hes : ∀ e ∈ es, e.appends = true) (w : DynamicWrapper) :
    Keeps w (Edit.applyAll R es w) := by
  induction es generalizing w with
  | nil => exact ⟨rfl, rfl, rfl⟩
  | cons e es ih =>
    obtain ⟨he, hes⟩ := List.forall_mem_cons.mp hes
    have hone : Keeps w (e.apply R w) := by
      cases e with
      | connect k => exact keeps_connect R k w
      | write t => exact ⟨rfl, rfl, rfl⟩
      | bind column v => exact ⟨rfl, rfl, rfl⟩
      | _ => cases he
    exact hone.trans (ih hes _)

theorem keeps_call (hR : R.template.Standard) {c : Call} (hjoins : c.joins = true) (w : DynamicWrapper) :
    Keeps w (c.apply R w) := by
  by_cases hc : c.writes = true
  · obtain ⟨es, hedits, hes⟩ := Call.edits_of_writes (R := R) hc
    rw [Call.apply_eq_edits, hedits]
    exact keeps_applyAll (List.forall_mem_cons.mpr ⟨rfl, hes⟩) w
  · rw [Call.apply_of_not_writes hR hjoins (by simpa using hc)]
    cases c.effect with
    | none => exact ⟨rfl, rfl, rfl⟩
    | some k => exact keeps_connect R k.text w

theorem keeps_calls (hR : R.template.Standard) {calls : List Call} (hcalls : ∀ c ∈ calls, c.joins = true)
    (w : DynamicWrapper) : Keeps w (calls.foldl (fun w c => c.apply R w) w) := by
  induction calls generalizing w with
  | nil => exact ⟨rfl, rfl, rfl⟩
  | cons c calls ih =>
    obtain ⟨hc, hcalls⟩ := List.forall_mem_cons.mp hcalls
    exact (keeps_call hR hc w).trans (ih hcalls _)

/-- The calls end with a condition. -/
def EndsInCondition (calls : List Call) : Prop := ∃ init c, calls = init ++ [c] ∧ c.writes = true

include hN hd in
theorem closes_calls (hR : R.template.Standard) {calls : List Call}
    (hcalls : ∀ c ∈ calls, c.joins = true) (hlast : EndsInCondition calls) {w : DynamicWrapper}
    (hw : w.driverType = d) (hformats : w.formats = fun _ => none) :
    Closes (calls.foldl (fun w c => c.apply R w) w).sql := by
  obtain ⟨init, c, rfl, hc⟩ := hlast
  rw [List.forall_mem_append, List.forall_mem_singleton] at hcalls
  rw [List.foldl_append, List.foldl_cons, List.foldl_nil]
  have hkeeps := (keeps_calls hR hcalls.1 w).trans
    (keeps_connect R R.template.and.leftRightSpace (init.foldl (fun w c => c.apply R w) w))
  have hand : Holds d _ _ ((init.foldl (fun w c => c.apply R w) w).and R) :=
    ⟨hkeeps.driver.trans hw, hkeeps.formats.trans hformats, rfl, rfl⟩
  have hnext := hand.condition hR hc
  rw [hnext.sql]
  exact (Call.closes hR hN hd _ hc).append _

theorem eq_none_of_closes {s : Text} {tail : Option Connective} (h : Closes (s ++ gapText tail)) :
    tail = none := by
  cases tail with
  | none => rfl
  | some k =>
    have hunclosed : Unclosed k.text := by
      cases k <;> simp [Unclosed, slotLast, Connective.text]
    exact absurd (List.suffix_append s _) (h.not_suffix hunclosed)

include hN hd in
/-- **Where no connective is added**, the calls write their pieces. -/
theorem run_blocked (hR : R.template.Standard) {calls : List Call} (hcalls : ∀ c ∈ calls, c.joins = true)
    {s : Text} {n : ℕ} {w : DynamicWrapper} (h : Holds d s n w)
    (hs : ∀ w' : DynamicWrapper, w'.sql = s → w'.notAllowAddAndOnEnd R = true)
    (g : Option Connective) : ∃ tail, (calls.foldl (fun w c => c.apply R w) w).sql =
      s ++ joinText (pieces R d Call.effect n g calls) ++ gapText tail := by
  induction calls generalizing g w with
  | nil => exact ⟨none, h.sql.trans (by simp [pieces, joinText, gapText])⟩
  | cons c calls ih =>
    obtain ⟨hjoins, hcalls⟩ := List.forall_mem_cons.mp hcalls
    have hblocked := hs w h.sql
    rw [List.foldl_cons, pieces]
    by_cases hc : c.writes = true
    · have hnext := (h.connect_of_blocked hblocked R.template.and.leftRightSpace).condition hR hc
      have hclosed : Closes (s ++ c.conditionText R d n) := (Call.closes hR hN hd n hc).append _
      obtain ⟨tail, -, htail⟩ := run_started hR hN hd hcalls hnext.noGap hclosed
      refine ⟨tail, htail.trans ?_⟩
      rw [if_pos hc, joinText, List.append_assoc s]
    · have hnext : Holds d s n (c.apply R w) := by
        rw [Call.apply_of_not_writes hR hjoins (by simpa using hc)]
        cases c.effect with
        | none => exact h
        | some k => exact h.connect_of_blocked hblocked k.text
      rw [if_neg hc]
      exact ih hcalls hnext _

include hN hd in
theorem args_calls (hT : R.template.Plain) (calls : List Call) {w : DynamicWrapper}
    (hw : w.driverType = d) :
    (calls.foldl (fun w c => c.apply R w) w).args = w.args ++ calls.flatMap (Call.values R) := by
  have hstart : Refines R d ⟨plain w.sql, w.args, w.formats⟩ w :=
    ⟨hw, (render_plain _ w.sql).symm, rfl, rfl⟩
  have hall := hstart.applyAll hN hT hd (calls.flatMap (Call.edits R))
  have hrun : Edit.applyAll R (calls.flatMap (Call.edits R)) w =
      calls.foldl (fun w c => c.apply R w) w := by
    clear hstart hall hw
    induction calls generalizing w with
    | nil => rfl
    | cons c calls ih =>
      rw [List.flatMap_cons, Edit.applyAll_append, ih, List.foldl_cons, Call.apply_eq_edits]
  rw [← hrun, hall.args, Edit.args_draftAll, List.flatMap_assoc]
  exact congrArg _ (List.flatMap_congr fun c _ => Call.edits_values R c)

include hN hd in
theorem sql_calls (hR : R.template.Standard) {calls : List Call} (hcalls : ∀ c ∈ calls, c.joins = true)
    (hlast : EndsInCondition calls) {w : DynamicWrapper} (hw : w.driverType = d)
    (hformats : w.formats = fun _ => none) (hblocked : w.notAllowAddAndOnEnd R = true) :
    (calls.foldl (fun w c => c.apply R w) w).sql =
      w.sql ++ joinText (pieces R d Call.effect w.args.length none calls) := by
  obtain ⟨tail, htail⟩ := run_blocked hN hd hR hcalls (w := w) ⟨hw, hformats, rfl, rfl⟩
    (fun w' hw' => by rwa [DynamicWrapper.notAllowAddAndOnEnd, hw']) none
  have hcloses := closes_calls hN hd hR hcalls hlast hw hformats
  rw [htail] at hcloses ⊢
  rw [eq_none_of_closes hcloses]
  exact List.append_nil _

end Link

section Chain

variable {R : Rbatis} (hR : R.template.Standard) (hN : R.Numbered) {d : DriverType} (hd : d ≠ .none)
  {ch : Chain} (hcalls : ∀ c ∈ ch.calls, c.joins = true ∧ c.Named) (hlast : EndsInCondition ch.calls)

end Chain

/-! ## Brackets -/

/-- A wrapper whose calls are made between brackets. -/
def Chain.inBrackets (R : Rbatis) (d : DriverType) (ch : Chain) : DynamicWrapper :=
  (ch.run R ((DynamicWrapper.new d).pushSql ['('])).pushSql [')']

section Combined

variable {R : Rbatis} {lt like : Bson → Bson → Prop} {row : Text → Bson} {P Q : Prop}

theorem combined_concat_or (ps : List (Connective × Prop)) :
    Combined P (ps ++ [(.or, Q)]) ↔ Combined P ps ∨ Q := by
  induction ps generalizing P with
  | nil => exact Iff.rfl
  | cons p ps ih =>
    obtain ⟨k, P'⟩ := p
    cases k with
    | and => exact ih
    | or => exact (or_congr_right ih).trans or_assoc.symm

theorem combined_concat_and {ps : List (Connective × Prop)} (hps : ∀ p ∈ ps, p.1 = .and) :
    Combined P (ps ++ [(.and, Q)]) ↔ Combined P ps ∧ Q := by
  induction ps generalizing P with
  | nil => exact Iff.rfl
  | cons p ps ih =>
    obtain ⟨k, P'⟩ := p
    obtain ⟨hp, hrest⟩ := List.forall_mem_cons.mp hps
    obtain rfl : k = .and := hp
    exact ih hrest

theorem conditions_and {calls : List Call} (hcalls : ∀ c ∈ calls, c.effect ≠ some .or)
    {g : Option Connective} (hg : g ≠ some .or) : ∀ p ∈ conditions g calls, p.1 = .and := by
  induction calls generalizing g with
  | nil => exact List.forall_mem_nil _
  | cons c calls ih =>
    obtain ⟨hc, hcalls⟩ := List.forall_mem_cons.mp hcalls
    rw [conditions]
    split_ifs
    · refine List.forall_mem_cons.mpr ⟨?_, ih hcalls (Option.some_ne_none _).symm⟩
      cases g with
      | none => rfl
      | some k =>
        cases k with
        | and => rfl
        | or => exact absurd rfl hg
    · refine ih hcalls ?_
      cases g with
      | none => exact hc
      | some k => exact hg

theorem acceptsWith_or (calls : List Call) :
    AcceptsWith R lt like row [(.or, Q)] calls ↔ Accepts R lt like row calls ∨ Q := by
  rw [Accepts]
  induction calls with
  | nil => exact (iff_of_true trivial (Or.inl trivial))
  | cons c calls ih =>
    rw [AcceptsWith, AcceptsWith]
    split_ifs
    · rw [List.append_nil]
      exact combined_concat_or _
    · exact ih

theorem acceptsWith_and {calls : List Call} (hcalls : ∀ c ∈ calls, c.effect ≠ some .or)
    (hwrites : ∃ c ∈ calls, c.writes = true) :
    AcceptsWith R lt like row [(.and, Q)] calls ↔ Accepts R lt like row calls ∧ Q := by
  rw [Accepts]
  induction calls with
  | nil =>
    obtain ⟨c, hc, -⟩ := hwrites
    exact absurd hc List.not_mem_nil
  | cons c calls ih =>
    obtain ⟨-, hcalls⟩ := List.forall_mem_cons.mp hcalls
    rw [AcceptsWith, AcceptsWith]
    split_ifs with hc
    · rw [List.append_nil]
      refine combined_concat_and fun p hp => ?_
      obtain ⟨q, hq, rfl⟩ := List.mem_map.mp hp
      exact conditions_and hcalls (Option.some_ne_none _).symm q hq
    · refine ih hcalls ?_
      obtain ⟨c', hc', hw⟩ := hwrites
      rcases List.mem_cons.mp hc' with rfl | hmem
      · exact absurd hw hc
      · exact ⟨c', hmem, hw⟩

end Combined

section Linked

variable {R : Rbatis} (hR : R.template.Standard) (hN : R.Numbered) {d : DriverType} (hd : d ≠ .none)
  {ch v : Chain} (hch : ∀ c ∈ ch.calls, c.joins = true ∧ c.Named)
  (hv : ∀ c ∈ v.calls, c.joins = true ∧ c.Named)
  (hchlast : EndsInCondition ch.calls) (hvlast : EndsInCondition v.calls)

include hR hN hd hv hvlast in
theorem Chain.inBrackets_eq :
    (v.inBrackets R d).sql = ['('] ++ joinText (pieces R d Call.effect 0 none v.calls) ++ [')'] ∧
      (v.inBrackets R d).args = v.calls.flatMap (Call.values R) := by
  have hT : R.template.Plain := hR.plain
  have hsql := sql_calls hN hd hR (fun c hc => (hv c hc).1) hvlast
    (w := (DynamicWrapper.new d).pushSql ['(']) rfl rfl (DynamicWrapper.blocked_bracket _)
  have hargs := args_calls hN hd hT v.calls (w := (DynamicWrapper.new d).pushSql ['(']) rfl
  rw [← Chain.run_eq_calls] at hsql hargs
  exact ⟨congrArg (· ++ [')']) hsql, hargs.trans (List.nil_append _)⟩

theorem EndsInCondition.exists_writes {calls : List Call} (h : EndsInCondition calls) :
    ∃ c ∈ calls, c.writes = true := by
  obtain ⟨init, c, rfl, hc⟩ := h
  exact ⟨c, by simp, hc⟩

include hR hN hd hch hchlast in
theorem Chain.turns {args : List Bson} {m : ℕ} (hargs : Bound args m (ch.calls.flatMap (Call.values R))) :
    ∃ F : Frame Bson → Frame Bson,
      Turns (placeholderValue d args) m (ch.calls.flatMap (Call.values R)).length
        (joinText (pieces R d Call.effect m none ch.calls)) F ∧
      ∀ (lt like : Bson → Bson → Prop) (row : Text → Bson) (ps : List (Connective × Prop)),
        SelectsFrom (sqlValues lt like) row (F .empty) ps ↔ AcceptsWith R lt like row ps ch.calls := by
  rcases turns_fresh hR hN hd hch none hargs with ⟨hnone, -⟩ | ⟨-, h⟩
  · obtain ⟨c, hc, hw⟩ := hchlast.exists_writes
    rw [hnone c hc] at hw
    cases hw
  · exact h

include hR hN hd hch hv hchlast hvlast in
/-- **One connective.** The wrapper in brackets is one condition after the connective. -/
theorem Chain.meaning_connect (k : Connective)
    (hclash : Renumbers d (ch.calls.flatMap (Call.values R)).length
      (v.calls.flatMap (Call.values R)).length) :
    ∃ clause, (((ch.run R (.new d)).connect R k.text).pushWrapper R (v.inBrackets R d)).whereClause =
        some clause ∧
      ∀ (lt like : Bson → Bson → Prop) (row : Text → Bson), clause.Holds (sqlValues lt like) row ↔
        AcceptsWith R lt like row [(k, Accepts R lt like row v.calls)] ch.calls := by
  have hT : R.template.Plain := hR.plain
  have hjoins : ∀ c ∈ ch.calls, c.joins = true := fun c hc => (hch c hc).1
  have hkeeps := keeps_calls hR hjoins (.new d)
  have hsql := sql_calls hN hd hR hjoins hchlast (w := .new d) rfl rfl rfl
  have hcloses := closes_calls hN hd hR hjoins hchlast (w := .new d) rfl rfl
  have hargs := args_calls hN hd hT ch.calls (w := .new d) rfl
  rw [← Chain.run_eq_calls] at hkeeps hsql hcloses hargs
  obtain ⟨hvsql, hvargs⟩ := Chain.inBrackets_eq hR hN hd hv hvlast
  have hholds : Holds d ((ch.run R (.new d)).sql ++ k.text) _ ((ch.run R (.new d)).connect R k.text) :=
    Holds.connect hR (g := none) (Holds.noGap ⟨hkeeps.driver, hkeeps.formats, rfl, rfl⟩) hcloses k
  have hargs' : ((ch.run R (.new d)).connect R k.text).args = ch.calls.flatMap (Call.values R) := by
    rw [args_connect, hargs]
    rfl
  -- the statement is the two texts with the connective between them
  have hbracket : Uniform R (v.calls.flatMap (Call.values R)).length fun d n =>
      ['('] ++ joinText (pieces R d Call.effect n none v.calls) ++ [')'] := by
    have hopen : Uniform R 0 fun _ _ => ['('] := uniform_text ⟨by simp [Avoids], by simp⟩
    have hclose : Uniform R 0 fun _ _ => [')'] := uniform_text ⟨by simp [Avoids], by simp⟩
    have hall := (hopen.append (uniform_joinText hR hv none)).append hclose
    rwa [Nat.zero_add, Nat.add_zero] at hall
  have htext := pushWrapper_uniform hN hd hbracket hholds.driver hvsql (congrArg List.length hvargs)
    (by rwa [hargs'])
  rw [hholds.sql, hsql, hargs'] at htext
  -- and each of the two is a clause
  obtain ⟨hbound, hvbound⟩ := (bound_zero (ch.calls.flatMap (Call.values R) ++
    v.calls.flatMap (Call.values R))).append
  obtain ⟨F, hturns, hsel⟩ := Chain.turns hR hN hd hch hchlast hbound
  obtain ⟨G, hvturns, hvsel⟩ := Chain.turns hR hN hd hv hvlast hvbound
  have hds : ∀ (lt like : Bson → Bson → Prop) (row : Text → Bson),
      (∀ d ∈ [(G .empty).whole], d.Holds (sqlValues lt like) row) ↔ Accepts R lt like row v.calls := by
    intro lt like row
    rw [List.forall_mem_singleton, ← selectsFrom_nil]
    exact hvsel lt like row []
  have hclause : (((ch.run R (.new d)).connect R k.text).pushWrapper R (v.inBrackets R d)).whereClause =
      parseClause (placeholderValue d (ch.calls.flatMap (Call.values R) ++
        v.calls.flatMap (Call.values R))) (joinText (pieces R d Call.effect 0 none ch.calls) ++ k.text ++
          (['('] ++ joinText (pieces R d Call.effect (0 + (ch.calls.flatMap (Call.values R)).length)
            none v.calls) ++ [')'])) := by
    have hdriver : (((ch.run R (.new d)).connect R k.text).pushWrapper R (v.inBrackets R d)).driverType =
        d := hholds.driver
    rw [DynamicWrapper.whereClause, hdriver, pushWrapper_args, hargs', hvargs, htext, Nat.zero_add]
    rfl
  rw [hclause]
  cases k with
  | and =>
    refine ⟨_, parseClause_of_turns (hturns.and hvturns.group), fun lt like row => ?_⟩
    exact (selectsFrom_nil _).symm.trans
      ((selectsFrom_add (hds lt like row) (F .empty) []).trans (hsel lt like row _))
  | or =>
    refine ⟨_, parseClause_of_turns (hturns.or hvturns.group), fun lt like row => ?_⟩
    exact (selectsFrom_nil _).symm.trans
      ((selectsFrom_split (hds lt like row) (F .empty) []).trans (hsel lt like row _))

end Linked

/-- Two alternatives with one argument. -/
def ownerChain : Chain :=
  .call (.eq "owner".toList (.int64 1)) <| .call .or <| .call (.isNull "place".toList) .nil

theorem ownerChain_calls : (∀ c ∈ ownerChain.calls, c.joins = true ∧ c.Named) ∧
    EndsInCondition ownerChain.calls := by
  refine ⟨?_, [.eq "owner".toList (.int64 1), .or], .isNull "place".toList, rfl, rfl⟩
  simp only [ownerChain, Chain.calls, List.forall_mem_cons]
  exact ⟨⟨rfl, by decide⟩, ⟨rfl, by decide⟩, ⟨rfl, by decide⟩, List.forall_mem_nil _⟩

/-- One condition with one argument. -/
def kindChain : Chain := .call (.eq "kind".toList (.int64 2)) .nil

theorem kindChain_calls : (∀ c ∈ kindChain.calls, c.joins = true ∧ c.Named) ∧
    EndsInCondition kindChain.calls := by
  refine ⟨?_, [], .eq "kind".toList (.int64 2), rfl, rfl⟩
  simp only [kindChain, Chain.calls, List.forall_mem_cons]
  exact ⟨⟨rfl, by decide⟩, List.forall_mem_nil _⟩

theorem renumbers_one (d : DriverType) : Renumbers d 1 1 := fun _ => by
  refine Or.inr ⟨by decide, fun i j _ hij hj => ?_⟩
  omega

end ChimesUtils
