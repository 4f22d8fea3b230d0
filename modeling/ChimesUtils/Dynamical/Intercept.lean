import ChimesUtils.Dynamical.Placeholders

/-!
# The interceptor of multiple databases

`rbatisCompatibleSql` rewrites a statement for the connected database: for Postgres it numbers the
`?` marks from one. `MultipleDatabaseIntercepter` runs it on every statement.

* `rbatisCompatibleSql_render`: on a rendering whose only `?` are written for slots, these slots get
  the numbers of a counter of their own (`label`);
* `rbatisCompatibleSql_chain`: a chain built for MySQL becomes the chain built for Postgres;
* `doIntercept_mixed_iff`: a chain with raw fragments keeps its numbering exactly if no raw mark
  comes after a placeholder of the builder.
-/

namespace ChimesUtils

open Lib

/-- The loop over the parts between the `?` marks, at part `i` of `count`. -/
def compatibleLoop (count : ℕ) : ℕ → List Text → Text
  | _, [] => []
  | i, t :: spl => t ++ (if i < count then '$' :: decimal i else []) ++ compatibleLoop count (i + 1) spl

/-- `rbatis_compatible_sql`, with the result of `rb.driver_type()`. -/
def rbatisCompatibleSql {ε : Type} (driverType : Except ε DriverType) (sql : Text) : Text :=
  match driverType with
  | .ok .postgres =>
    let spl := sql.splitOn '?'
    compatibleLoop spl.length 1 spl
  | .ok _ => sql
  | .error _ => sql

/-- `MultipleDatabaseIntercepter::do_intercept`: the statement and the arguments after it. -/
def doIntercept {ε : Type} (driverType : Except ε DriverType) (sql : Text) (args : List Bson) :
    Text × List Bson := (rbatisCompatibleSql driverType sql, args)

/-! ## Numbering marks -/

/-- Number the `?` marks from `i` on. -/
def numberMarks : ℕ → Text → Text
  | _, [] => []
  | i, c :: s => if c = '?' then '$' :: decimal i ++ numberMarks (i + 1) s else c :: numberMarks i s

theorem compatibleLoop_splitOn (i : ℕ) (s : Text) :
    compatibleLoop (i + (s.splitOn '?').length - 1) i (s.splitOn '?') = numberMarks i s := by
  induction s generalizing i with
  | nil =>
    rw [List.splitOn_nil, compatibleLoop, if_neg (by simp)]
    rfl
  | cons c s ih =>
    obtain ⟨t, ts, ht⟩ := List.exists_cons_of_ne_nil (List.splitOnP_ne_nil (· == '?') s)
    change s.splitOn '?' = t :: ts at ht
    rw [List.splitOn, List.splitOnP_cons_eq_if_modifyHead, ← List.splitOn, numberMarks]
    have hlen := congrArg List.length ht
    rw [List.length_cons] at hlen
    by_cases hc : c = '?'
    · rw [if_pos (by simpa using hc), if_pos hc, compatibleLoop, if_pos, ← ih (i + 1),
        List.length_cons]
      · simp only [List.nil_append]
        congr 2
        omega
      · rw [List.length_cons]
        omega
    · rw [if_neg (by simpa using hc), if_neg hc, List.length_modifyHead, ← ih i, ht,
        List.modifyHead_cons, compatibleLoop, compatibleLoop]
      simp

theorem rbatisCompatibleSql_postgres {ε : Type} (s : Text) :
    rbatisCompatibleSql (.ok .postgres : Except ε DriverType) s = numberMarks 1 s := by
  rw [← compatibleLoop_splitOn 1 s, Nat.add_sub_cancel_left]
  rfl

theorem numberMarks_append_of_notMem {x : Text} (hx : '?' ∉ x) (i : ℕ) (s : Text) :
    numberMarks i (x ++ s) = x ++ numberMarks i s := by
  induction x with
  | nil => rfl
  | cons c x ih =>
    rw [List.mem_cons, not_or] at hx
    rw [List.cons_append, numberMarks, if_neg (Ne.symm hx.1), ih hx.2, List.cons_append]

/-- The text of the number `n` as a placeholder of Postgres. -/
def dollarText (n : ℕ) : Text := '$' :: decimal n

theorem dollarText_tokenRender : TokenRender dollar dollarText := fun n =>
  ⟨decimal n, rfl, decimal_ne_nil n, fun _ h => isDigit_of_mem_decimal h⟩

theorem mark_notMem_dollarText (n : ℕ) : '?' ∉ dollarText n := by
  rw [dollarText, List.mem_cons, not_or]
  refine ⟨by decide, fun h => ?_⟩
  have := isDigit_of_mem_decimal h
  revert this
  decide

/-- The numbers of the slots when those in `q` are counted from `k` on. -/
def label (q : Slot → Bool) : ℕ → List Slot → List ℕ
  | _, [] => []
  | k, s :: ss => if q s then k :: label q (k + 1) ss else (s.index + 1) :: label q k ss

/-- Put the given numbers in the places of the marks. -/
def relabel {ι : Type} : List ℕ → Marked Char ι → Marked Char ℕ
  | ns, .inl c :: E => .inl c :: relabel ns E
  | n :: ns, .inr _ :: E => .inr n :: relabel ns E
  | _, _ => []

/-- **The interceptor on a rendering.** The slots written as `?` get the numbers of its counter. -/
theorem numberMarks_render {f : Slot → Text} {q : Slot → Bool}
    (hf : ∀ s, f s = if q s then ['?'] else dollarText (s.index + 1)) {E : Marked Char Slot}
    (hE : '?' ∉ letters E) (k : ℕ) :
    numberMarks k (render f E) = render dollarText (relabel (label q k (marks E)) E) := by
  induction E generalizing k with
  | nil => rfl
  | cons x E ih =>
    rcases x with c | s
    · rw [letters_inl_cons, List.mem_cons, not_or] at hE
      rw [render_inl_cons, numberMarks, if_neg (Ne.symm hE.1), ih hE.2]
      cases h : label q k (marks E) <;> simp [h, relabel]
    · rw [letters_inr_cons] at hE
      rw [render_inr_cons, marks_inr_cons, hf, label]
      split_ifs
      · rw [List.cons_append, List.nil_append, numberMarks, if_pos rfl, ih hE, relabel,
          render_inr_cons, dollarText]
      · rw [numberMarks_append_of_notMem (mark_notMem_dollarText _), ih hE, relabel,
          render_inr_cons]

theorem length_label (q : Slot → Bool) (k : ℕ) (ss : List Slot) :
    (label q k ss).length = ss.length := by
  induction ss generalizing k with
  | nil => rfl
  | cons s ss ih =>
    rw [label]
    split_ifs <;> rw [List.length_cons, ih, List.length_cons]

section Relabel

variable {ι : Type} {ns : List ℕ} {E : Marked Char ι}

theorem marks_relabel (h : ns.length = (marks E).length) : marks (relabel ns E) = ns := by
  induction E generalizing ns with
  | nil => exact (List.length_eq_zero_iff.mp h).symm ▸ rfl
  | cons x E ih =>
    rcases x with c | i
    · rw [relabel, marks_inl_cons, ih h]
    · rcases ns with _ | ⟨n, ns⟩
      · cases h
      · rw [relabel, marks_inr_cons, ih (by simpa using h)]

theorem letters_relabel (h : ns.length = (marks E).length) : letters (relabel ns E) = letters E := by
  induction E generalizing ns with
  | nil => cases ns <;> rfl
  | cons x E ih =>
    rcases x with c | i
    · rw [relabel, letters_inl_cons, letters_inl_cons, ih h]
    · rcases ns with _ | ⟨n, ns⟩
      · cases h
      · rw [relabel, letters_inr_cons, letters_inr_cons, ih (by simpa using h)]

theorem head_relabel {c : Char} (h : (relabel ns E).head? = some (.inl c)) :
    E.head? = some (.inl c) := by
  rcases E with _ | ⟨x, E⟩
  · cases ns <;> cases h
  · rcases x with a | i
    · cases h
      rfl
    · rcases ns with _ | ⟨n, ns⟩ <;> cases h

theorem separated_relabel {q : Char → Bool} (h : Separated q E) : Separated q (relabel ns E) := by
  induction E generalizing ns with
  | nil => cases ns <;> exact List.isChain_nil
  | cons x E ih =>
    have hhead : ∀ ns c, x.isRight = true → (relabel ns E).head? = some (.inl c) → q c = false := by
      intro ns c hx hc
      rcases E with _ | ⟨y, E⟩
      · cases head_relabel hc
      · exact (List.isChain_cons_cons.mp h).1 hx c (Option.some.inj (head_relabel hc))
    rcases x with c | i
    · exact (ih h.tail).of_head fun hc => by cases hc
    · rcases ns with _ | ⟨n, ns⟩
      · exact List.isChain_nil
      · exact (ih h.tail).of_head fun _ c hc => hhead ns c rfl hc

theorem render_relabel_map (f : ℕ → Text) (g : ι → ℕ) (E : Marked Char ι) :
    render f (relabel ((marks E).map g) E) = render (fun i => f (g i)) E := by
  induction E with
  | nil => rfl
  | cons x E ih =>
    rcases x with c | i
    · rw [marks_inl_cons, relabel, render_inl_cons, render_inl_cons, ih]
    · rw [marks_inr_cons, List.map_cons, relabel, render_inr_cons, render_inr_cons, ih]

end Relabel

/-! ## Chains built for MySQL -/

theorem label_none (k : ℕ) (ss : List Slot) :
    label (fun _ => false) k ss = ss.map fun s => s.index + 1 := by
  induction ss with
  | nil => rfl
  | cons s ss ih => rw [label, if_neg (by simp), ih, List.map_cons]

theorem label_all (k : ℕ) (ss : List Slot) :
    label (fun _ => true) k ss = List.range' k ss.length := by
  induction ss generalizing k with
  | nil => rfl
  | cons s ss ih => rw [label, if_pos rfl, ih, List.length_cons, List.range'_succ]

/-- The letters of placeholders of MySQL and Postgres. -/
abbrev markOrDollar : List Char := ['?', '$']

/-- **MySQL text for Postgres.** The interceptor turns the statement of a chain built for MySQL into
the one built for Postgres, leaves the latter as it is, and both have the same arguments. -/
theorem rbatisCompatibleSql_chain {R : Rbatis} (hR : R.Numbered) (hT : R.template.Plain) (ε : Type)
    {ch : Chain} (hch : ∀ c ∈ ch.calls, c.Clean markOrDollar (CleanTemplate markOrDollar)) :
    rbatisCompatibleSql (.ok .postgres : Except ε DriverType) (ch.run R (.new .mysql)).sql =
        (ch.run R (.new .postgres)).sql ∧
      rbatisCompatibleSql (.ok .postgres : Except ε DriverType) (ch.run R (.new .postgres)).sql =
        (ch.run R (.new .postgres)).sql ∧
      (ch.run R (.new .mysql)).args = (ch.run R (.new .postgres)).args := by
  have hbad : ∀ c ∈ markOrDollar, c ∈ marksOfPlaceholders := by simp
  have hmy := Chain.refines hR hT (d := .mysql) (by simp) ch
  have hpg := Chain.refines hR hT (d := .postgres) (by simp) ch
  have hbuilt := Chain.draft_built hT hbad hch
  have hmark : '?' ∉ letters (ch.draft R).pieces := fun h =>
    (Chain.draft_clean hT hbad hch).letters _ h (by simp)
  have hnum := (Chain.draft_numbered hT hbad hch).index
  have hsql : (ch.run R (.new .postgres)).sql =
      render (fun s => dollarText (s.index + 1)) (ch.draft R).pieces := by
    rw [hpg.sql, render_draft _ hbuilt]
    exact render_congr _ fun s _ => hR.postgres s.index
  have hlabel : label (fun _ => true) 1 (marks (ch.draft R).pieces) =
      (marks (ch.draft R).pieces).map fun s => s.index + 1 := by
    rw [label_all, ← List.length_map (f := Slot.index), hnum, List.length_range,
      List.range'_eq_map_range]
    refine Eq.trans (List.map_congr_left fun i _ => Nat.add_comm 1 i) ?_
    rw [← hnum, List.map_map]
    rfl
  refine ⟨?_, ?_, hmy.args.trans hpg.args.symm⟩
  · rw [rbatisCompatibleSql_postgres, hmy.sql, render_draft _ hbuilt,
      numberMarks_render (q := fun _ => true) (fun s => hR.mysql s.index) hmark, hlabel,
      render_relabel_map, hsql]
  · rw [rbatisCompatibleSql_postgres, hsql,
      numberMarks_render (f := fun s => dollarText (s.index + 1)) (q := fun _ => false)
        (fun s => rfl) hmark, label_none, render_relabel_map]

/-- The interceptor on the chain with a template, a branch and a membership list. -/
theorem rbatisCompatibleSql_dated :
    rbatisCompatibleSql (.ok .postgres : Except Unit DriverType)
        (Chain.dated.run .standard (.new .mysql)).sql =
      (Chain.dated.run .standard (.new .postgres)).sql :=
  (rbatisCompatibleSql_chain Rbatis.standard_numbered Template.standard_rbatis.plain Unit fun c hc =>
    (Chain.dated_clean c hc).imp (by simp) fun _ h => ⟨h.1.1, fun x hx hb => h.1.2 x hx (by
      simp only [markOrDollar, List.mem_cons, List.not_mem_nil, or_false] at hb
      rcases hb with rfl | rfl <;> simp)⟩).1

/-! ## Chains with raw fragments -/

/-- A step of a chain that mixes builder calls and raw fragments: `raw t vs` is `push_sql(t)`
followed by one `push_arg` for each value. -/
inductive Part where
  | call (c : Call)
  | raw (text : Text) (args : List Bson)

namespace Part

variable (R : Rbatis)

def apply : Part → DynamicWrapper → DynamicWrapper
  | call c, w => c.apply R w
  | raw text args, w => args.foldl DynamicWrapper.pushArg (w.pushSql text)

/-- Run the parts in order. -/
def run (ps : List Part) (w : DynamicWrapper) : DynamicWrapper :=
  ps.foldl (fun w p => p.apply R w) w

def edits : Part → List Edit
  | call c => c.edits R
  | raw text args => [.raw text args]

/-- The draft of the parts. -/
def draft (ps : List Part) : Draft := Edit.draftAll R (ps.flatMap (edits R)) Draft.new

/-- A builder call that writes a placeholder. -/
def Binds : Part → Prop
  | call c => c.values R ≠ []
  | raw _ _ => False

/-- A raw fragment with a `?` mark. -/
def Asks : Part → Prop
  | call _ => False
  | raw _ args => args ≠ []

/-- The placeholders of the part are those it writes for its arguments: the texts of a call are free
of `?` and `$`, its templates have one hole and no digit after it; a raw text has one `?` for each
argument, no `$`, and no digit after a `?`. -/
def Clean : Part → Prop
  | call c => c.Clean markOrDollar fun s => CleanTemplate markOrDollar s ∧ Undigited s
  | raw text args => text.count '?' = args.length ∧ '$' ∉ text ∧
      ∀ c, c.isDigit = true → ¬ ['?', c] <:+: text

/-- A raw text that comes directly after a placeholder does not start with a digit. -/
def Apart (ps : List Part) : Prop :=
  ∀ qs text args rs s, ps = qs ++ raw text args :: rs → (draft R qs).pieces.getLast? = some (.inr s) →
    ∀ c ∈ text.head?, c.isDigit = false

theorem run_eq_edits (ps : List Part) (w : DynamicWrapper) :
    run R ps w = Edit.applyAll R (ps.flatMap (edits R)) w := by
  induction ps generalizing w with
  | nil => rfl
  | cons p ps ih =>
    rw [run, List.foldl_cons, ← run, ih, List.flatMap_cons, Edit.applyAll_append]
    congr 1
    cases p with
    | call c => exact Call.apply_eq_edits R c w
    | raw text args => rfl

end Part

/-! ### The counter of the interceptor -/

theorem label_behind {ss : List Slot} {n k : ℕ} (hk : k ≤ n)
    (hss : ss.map Slot.index = List.range' n ss.length) :
    label Slot.raw k ss = ss.map (fun s => s.index + 1) ↔ ∀ s ∈ ss, s.raw = false := by
  induction ss generalizing n with
  | nil => simp [label]
  | cons s ss ih =>
    rw [List.map_cons, List.length_cons, List.range'_succ, List.cons.injEq] at hss
    rw [List.forall_mem_cons, ← ih (n := n + 1) (by omega) hss.2, label, List.map_cons]
    cases hraw : s.raw with
    | true =>
      rw [if_pos rfl, List.cons.injEq]
      constructor
      · rintro ⟨h, -⟩
        omega
      · rintro ⟨h, -⟩
        cases h
    | false => simp

/-- The counter reads the positions exactly if no raw slot comes after a slot of the builder. -/
theorem label_eq_iff {ss : List Slot} {n : ℕ} (hss : ss.map Slot.index = List.range' n ss.length) :
    label Slot.raw (n + 1) ss = ss.map (fun s => s.index + 1) ↔
      ss.Pairwise fun a b => b.raw = true → a.raw = true := by
  induction ss generalizing n with
  | nil => simp [label]
  | cons s ss ih =>
    rw [List.map_cons, List.length_cons, List.range'_succ, List.cons.injEq] at hss
    rw [List.pairwise_cons, label, List.map_cons]
    cases hraw : s.raw with
    | true =>
      rw [if_pos rfl, List.cons.injEq, ih hss.2]
      simp [hss.1]
    | false =>
      rw [if_neg (by simp), List.cons.injEq, label_behind (n := n + 1) le_rfl hss.2]
      simp only [true_and, Bool.false_eq_true, imp_false, Bool.not_eq_true]
      refine ⟨fun h => ⟨h, List.Pairwise.imp_of_mem (fun _ hb _ hr => ?_)
        (List.pairwise_of_forall (R := fun _ _ => True) fun _ _ => trivial)⟩, fun h => h.1⟩
      rw [h _ hb] at hr
      cases hr

/-! ### The slots of a mixed chain -/

section Mixed

variable {R : Rbatis} {ps : List Part}

/-- What a clean part writes. -/
structure Edit.Written (e : Edit) : Prop where
  filled : e.Filled
  letters : Avoids markOrDollar e.letters
  templates : e.Templates fun s => CleanTemplate markOrDollar s ∧ Undigited s

theorem mark_notMem_letters {n k : ℕ} {t : Text} (h : t.count '?' = k) :
    '?' ∉ letters (Draft.rawPieces n k t) := by
  induction t generalizing n k with
  | nil => cases k <;> simp [Draft.rawPieces]
  | cons c t ih =>
    by_cases hc : c = '?'
    · subst hc
      rw [List.count_cons_self] at h
      subst h
      rw [Draft.rawPieces, if_pos rfl, letters_inr_cons]
      exact ih rfl
    · rw [List.count_cons_of_ne hc] at h
      have hne : '?' ≠ c := Ne.symm hc
      cases k with
      | zero => simpa [Draft.rawPieces, hne] using ih h
      | succ k => simpa [Draft.rawPieces, hc, hne] using ih h

theorem letters_rawPieces_subset (n k : ℕ) (t : Text) : letters (Draft.rawPieces n k t) ⊆ t := by
  induction t generalizing n k with
  | nil => cases k <;> exact List.Subset.refl _
  | cons c t ih =>
    cases k with
    | zero => exact List.cons_subset_cons c (ih n 0)
    | succ k =>
      rw [Draft.rawPieces]
      split_ifs
      · exact List.Subset.trans (ih _ _) (List.subset_cons_self c t)
      · exact List.cons_subset_cons c (ih _ _)

theorem Part.edits_written (hT : R.template.Plain) {p : Part} (hp : p.Clean) :
    ∀ e ∈ p.edits R, e.Written := by
  have hbad : ∀ c ∈ markOrDollar, c ∈ marksOfPlaceholders := by simp
  cases p with
  | call c =>
    intro e he
    by_cases hf : ∃ f, c = .setFormats f
    · obtain ⟨f, rfl⟩ := hf
      rw [List.mem_singleton.mp he]
      exact ⟨trivial, List.forall_mem_nil _, hp.templates⟩
    · have ht := Call.edits_tidy hT hbad hp.texts (not_exists.mp hf) e he
      exact ⟨ht.filled, ht.letters hbad, ht.templates _⟩
  | raw text args =>
    refine List.forall_mem_singleton.mpr ⟨hp.1, fun x hx hb => ?_, trivial⟩
    simp only [markOrDollar, List.mem_cons, List.not_mem_nil, or_false] at hb
    rcases hb with rfl | rfl
    · exact mark_notMem_letters hp.1 hx
    · exact hp.2.1 (letters_rawPieces_subset _ _ _ hx)

variable (hT : R.template.Plain) (hps : ∀ p ∈ ps, p.Clean)

include hT hps in
theorem Part.all_written : ∀ e ∈ ps.flatMap (Part.edits R), e.Written := by
  intro e he
  obtain ⟨p, hp, he⟩ := List.mem_flatMap.mp he
  exact Part.edits_written hT (hps p hp) e he

include hT hps in
theorem Part.all_filled :
    ∀ e ∈ ps.flatMap (Part.edits R), e.Filled ∧ e.Templates (OccursOnce hole) := fun e he =>
  have h := Part.all_written hT hps e he
  ⟨h.filled, h.templates.imp fun _ h => h.1.1⟩

include hT hps in
theorem Part.draft_numbered : (Part.draft R ps).Numbered :=
  Draft.numbered_new.applyAll hT (Part.all_filled hT hps)

include hT hps in
theorem Part.draft_clean : (Part.draft R ps).Clean markOrDollar :=
  (Draft.clean_new markOrDollar).applyAll fun e he =>
    have h := Part.all_written hT hps e he
    ⟨h.letters, h.templates.imp fun _ h => h.1⟩

theorem Part.draft_concat (ps : List Part) (p : Part) :
    Part.draft R (ps ++ [p]) = Edit.draftAll R (p.edits R) (Part.draft R ps) := by
  rw [draft, List.flatMap_append, List.flatMap_singleton, Edit.draftAll, List.foldl_append]
  rfl

theorem Part.Apart.of_append {qs : List Part} (h : Part.Apart R (ps ++ qs)) : Part.Apart R ps := by
  rintro qs' text args rs s rfl
  exact h qs' text args (rs ++ qs) s (by rw [List.append_assoc, List.cons_append])

include hT hps in
theorem Part.draft_separated (hapart : Part.Apart R ps) :
    Separated Char.isDigit (Part.draft R ps).pieces := by
  induction ps using List.reverseRecOn with
  | nil => exact List.isChain_nil
  | append_singleton ps p ih =>
    have hps' : ∀ q ∈ ps, q.Clean := fun q hq => hps q (List.mem_append_left _ hq)
    have hp : p.Clean := hps p (List.mem_append_right _ (List.mem_singleton.mpr rfl))
    have hsep := ih hps' hapart.of_append
    have htemplates : ∀ e ∈ (ps ++ [p]).flatMap (Part.edits R),
        e.Templates fun s => OccursOnce hole s ∧ Undigited s := fun e he =>
      (Part.all_written hT hps e he).templates.imp fun _ h => ⟨h.1.1, h.2⟩
    rw [List.flatMap_append, List.forall_mem_append, List.flatMap_singleton] at htemplates
    have hformats := Draft.templates_applyAll (R := R) (D := Draft.new) (fun _ _ h => nomatch h)
      htemplates.1
    have hclosed : (Part.draft R ps).Spaced false := ⟨hsep, fun h => absurd h Bool.false_ne_true⟩
    rw [Part.draft_concat]
    cases p with
    | call c => exact hclosed.applyAll hT hformats (Call.edits_fit hT c) htemplates.2
    | raw text args =>
      by_cases hslot : ∃ s, (Part.draft R ps).pieces.getLast? = some (.inr s)
      · obtain ⟨s, hs⟩ := hslot
        have hfit : (Edit.raw text args).Fits false :=
          ⟨Or.inr (hapart ps text args [] s rfl hs), hp.2.2⟩
        exact hclosed.applyAll hT hformats ⟨hfit, trivial⟩ htemplates.2
      · have hopen : (Part.draft R ps).Spaced true := ⟨hsep, fun _ s hs => hslot ⟨s, hs⟩⟩
        have hfit : (Edit.raw text args).Fits true := ⟨Or.inl rfl, hp.2.2⟩
        exact hopen.applyAll hT hformats ⟨hfit, trivial⟩ htemplates.2

/-- The arguments of a part. -/
def Part.values (R : Rbatis) : Part → List Bson
  | call c => c.values R
  | raw _ args => args

/-- Whether a part is a raw fragment. -/
def Part.isRaw : Part → Bool
  | call _ => false
  | raw _ _ => true

theorem Part.raw_edits (hT : R.template.Plain) {p : Part} (hp : p.Clean) :
    (p.edits R).flatMap (fun e => List.replicate e.values.length e.isRaw) =
      List.replicate (p.values R).length p.isRaw := by
  cases p with
  | call c =>
    have hraw : ∀ e ∈ c.edits R, e.isRaw = false := by
      intro e he
      by_cases hf : ∃ f, c = .setFormats f
      · obtain ⟨f, rfl⟩ := hf
        rw [List.mem_singleton.mp he]
        rfl
      · have hbad : ∀ c ∈ markOrDollar, c ∈ marksOfPlaceholders := by simp
        have ht := Call.edits_tidy hT hbad hp.texts (not_exists.mp hf) e he
        cases e with
        | raw t vs => exact ht.elim
        | _ => rfl
    rw [edits, values, isRaw, ← Call.edits_values]
    generalize c.edits R = es at hraw
    induction es with
    | nil => rfl
    | cons e es ih =>
      rw [List.forall_mem_cons] at hraw
      rw [List.flatMap_cons, List.flatMap_cons, ih hraw.2, hraw.1, List.replicate_append_replicate,
        List.length_append]
  | raw text args => exact List.append_nil _

include hT hps in
/-- Raw slots come first exactly if no raw fragment with a mark follows a call that binds. -/
theorem Part.sorted_iff : ((marks (Part.draft R ps).pieces).Pairwise
      fun a b => b.raw = true → a.raw = true) ↔
    ps.Pairwise fun p q => p.Binds R → ¬ q.Asks := by
  have hraw := Draft.numbered_new.raw_applyAll hT (Part.all_filled hT hps)
  rw [List.flatMap_assoc, List.flatMap_congr fun p hp => Part.raw_edits hT (hps p hp)] at hraw
  rw [← List.pairwise_map (f := Slot.raw) (R := fun a b => b = true → a = true), Part.draft, hraw,
    Draft.new, marks_nil, List.map_nil, List.nil_append, List.pairwise_flatMap]
  have hself : ∀ p ∈ ps, (List.replicate (p.values R).length p.isRaw).Pairwise
      fun a b => b = true → a = true := fun p _ =>
    List.pairwise_replicate.mpr (Or.inr id)
  rw [and_iff_right hself]
  refine List.Pairwise.iff fun {p q} => ?_
  cases p with
  | raw t vs => simp [Part.Binds, Part.isRaw]
  | call c =>
    cases q with
    | call c' => simp [Part.Asks, Part.isRaw]
    | raw t vs => simp [Part.Asks, Part.Binds, Part.isRaw, Part.values]

include hT hps in
/-- **Mixed chains.** After the interceptor every argument has the placeholder with its own number,
where it was introduced, and the placeholders read `$1, $2, …` from left to right, if and only if no
raw fragment with a `?` mark comes after a builder call that writes a placeholder. -/
theorem doIntercept_mixed_iff (hapart : Part.Apart R ps) (hR : R.Numbered) (ε : Type) :
    ((doIntercept (.ok .postgres : Except ε DriverType) (Part.run R ps (.new .postgres)).sql
          (Part.run R ps (.new .postgres)).args).1 =
        render (fun s => dollarText (s.index + 1)) (Part.draft R ps).pieces ∧
      placeholders .postgres (doIntercept (.ok .postgres : Except ε DriverType)
          (Part.run R ps (.new .postgres)).sql (Part.run R ps (.new .postgres)).args).1 =
        (List.range (Part.run R ps (.new .postgres)).args.length).map fun i => dollarText (i + 1)) ↔
    ps.Pairwise fun p q => p.Binds R → ¬ q.Asks := by
  have href : Refines R .postgres (Part.draft R ps) (Part.run R ps (.new .postgres)) := by
    rw [Part.run_eq_edits]
    exact (Refines.new R .postgres).applyAll hR hT (by simp) _
  have hclean := Part.draft_clean hT hps
  have hnum := (Part.draft_numbered hT hps).index
  have hlen := length_label Slot.raw 1 (marks (Part.draft R ps).pieces)
  have hout : (doIntercept (.ok .postgres : Except ε DriverType)
      (Part.run R ps (.new .postgres)).sql (Part.run R ps (.new .postgres)).args).1 =
      render dollarText (relabel (label Slot.raw 1 (marks (Part.draft R ps).pieces))
        (Part.draft R ps).pieces) := by
    rw [doIntercept, rbatisCompatibleSql_postgres, href.sql]
    refine numberMarks_render (fun s => ?_) (fun h => hclean.letters _ h (by simp)) 1
    rw [Slot.text, hR.postgres, dollarText]
  have htokens : placeholders .postgres (render dollarText
      (relabel (label Slot.raw 1 (marks (Part.draft R ps).pieces)) (Part.draft R ps).pieces)) =
      (label Slot.raw 1 (marks (Part.draft R ps).pieces)).map dollarText := by
    rw [placeholders, tokens_render dollarText_tokenRender, marks_relabel hlen]
    · rw [letters_relabel hlen]
      exact fun h => hclean.letters _ h (by simp [dollar])
    · exact separated_relabel (Part.draft_separated hT hps hapart)
  have hrange : (marks (Part.draft R ps).pieces).map Slot.index =
      List.range' 0 (marks (Part.draft R ps).pieces).length := by
    rw [← List.length_map (f := Slot.index), hnum, List.length_range, List.range_eq_range']
  have hwant : ((List.range (Part.run R ps (.new .postgres)).args.length).map
      fun i => dollarText (i + 1)) =
      ((marks (Part.draft R ps).pieces).map fun s => s.index + 1).map dollarText := by
    rw [href.args, ← hnum, List.map_map, List.map_map]
    rfl
  have hinj : Function.Injective dollarText := fun a b h =>
    decimal_injective (List.cons.inj h).2
  rw [hout, htokens, hwant, List.map_inj_right fun _ _ h => hinj h, ← Part.sorted_iff hT hps,
    ← label_eq_iff hrange, and_iff_right_iff_imp]
  intro h
  rw [h, render_relabel_map]

end Mixed

/-- A raw fragment before and after a condition of the builder. -/
def Part.around (early late : Text) : List Part :=
  [.raw early [.int64 1], .call (.eq "b".toList (.int64 2)), .raw late []]

theorem Part.around_clean : ∀ p ∈ Part.around "1 = 1 and a = ?".toList " for update".toList, p.Clean := by
  simp only [around, List.forall_mem_cons]
  refine ⟨⟨rfl, by decide, fun c hc h => ?_⟩, ⟨?_, trivial⟩, ⟨rfl, by decide, fun c hc h => ?_⟩,
    List.forall_mem_nil _⟩
  · simp [List.infix_cons_iff, List.prefix_cons_iff] at h
  · simp [Call.texts, Avoids]
  · simp [List.infix_cons_iff, List.prefix_cons_iff] at h

theorem Part.around_apart :
    Part.Apart .standard (Part.around "1 = 1 and a = ?".toList " for update".toList) := by
  intro qs text args rs s heq hs
  rcases qs with _ | ⟨q, _ | ⟨q', _ | ⟨q'', qs⟩⟩⟩
  · cases hs
  · simp [around] at heq
  · simp only [around, List.cons_append, List.nil_append, List.cons.injEq, Part.raw.injEq] at heq
    obtain ⟨-, -, ⟨rfl, -⟩, -⟩ := heq
    simp
  · simp [around] at heq

theorem doIntercept_around :
    placeholders .postgres (doIntercept (.ok .postgres : Except Unit DriverType)
      (Part.run .standard (Part.around "1 = 1 and a = ?".toList " for update".toList)
        (.new .postgres)).sql
      (Part.run .standard (Part.around "1 = 1 and a = ?".toList " for update".toList)
        (.new .postgres)).args).1 =
    ["$1".toList, "$2".toList] :=
  ((doIntercept_mixed_iff Template.standard_rbatis.plain Part.around_clean Part.around_apart
    Rbatis.standard_numbered Unit).mpr (by simp [Part.around, Part.Asks])).2

/-- A raw fragment with a mark after a condition of the builder. -/
def Part.late : List Part :=
  [.call (.eq "a".toList (.int64 1)), .raw " and b = ?".toList [.int64 2]]

/-- Both parameters get the number one. -/
theorem doIntercept_late :
    (doIntercept (.ok .postgres : Except Unit DriverType)
        (Part.run .standard Part.late (.new .postgres)).sql
        (Part.run .standard Part.late (.new .postgres)).args).1 = "a = $1 and b = $1".toList ∧
      placeholders .postgres (doIntercept (.ok .postgres : Except Unit DriverType)
          (Part.run .standard Part.late (.new .postgres)).sql
          (Part.run .standard Part.late (.new .postgres)).args).1 ≠
        (List.range (Part.run .standard Part.late (.new .postgres)).args.length).map
          fun i => dollarText (i + 1) := by
  have h : (doIntercept (.ok .postgres : Except Unit DriverType)
      (Part.run .standard Part.late (.new .postgres)).sql
      (Part.run .standard Part.late (.new .postgres)).args).1 = "a = $1 and b = $1".toList := by decide
  refine ⟨h, ?_⟩
  rw [h]
  decide

end ChimesUtils
