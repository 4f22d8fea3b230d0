import ChimesUtils.Dynamical.Connectives

/-!
# Trimming the connectives

`trim_and_or` removes `and` from both ends of the text, twice over, and `or` from neither.

* `stretch`, `sql_run`: the text of a chain on a wrapper, with its conditions in the middle;
* `trimTwice_eq`: what the two passes leave;
* `DynamicWrapper.trimAndOr_clean`: no `and` is left;
* `isTrimmed_iff`: for which initial texts and calls the conditions are left, and no connective at an end.
-/

namespace ChimesUtils

open Lib

/-! ## The conditions of a chain -/

namespace Call

variable (R : Rbatis)

/-- What a call appends to the text. -/
def appended (c : Call) (w : DynamicWrapper) : Text := (c.apply R w).sql.drop w.sql.length

/-- The condition that a call writes after its connective. -/
def written (c : Call) (w : DynamicWrapper) : Text := (c.apply R w).sql.drop (w.and R).sql.length

end Call

/-- The text from the first condition of the calls to the last one; `pending` is what was appended since
the last condition, if there was one. -/
def stretch (R : Rbatis) : Option Text → List Call → DynamicWrapper → Text
  | _, [], _ => []
  | pending, c :: calls, w =>
    if c.writes then
      pending.elim [] (· ++ Call.and.appended R w) ++ c.written R w ++
        stretch R (some []) calls (c.apply R w)
    else stretch R (pending.map (· ++ c.appended R w)) calls (c.apply R w)

/-- The text before the first condition. -/
def opening (R : Rbatis) : List Call → DynamicWrapper → Text
  | [], w => w.sql
  | c :: calls, w => if c.writes then (w.and R).sql else opening R calls (c.apply R w)

/-- The connective that a call adds where it can. -/
def Call.asks (c : Call) : Option Connective := if c.writes then some .and else c.effect

/-- The connective that the calls add to the text of the wrapper, before they write a condition. -/
def added (R : Rbatis) (calls : List Call) (w : DynamicWrapper) : Option Connective :=
  if w.notAllowAddAndOnEnd R then none else calls.findSome? Call.asks

/-- The connective that is added after the last condition. -/
def addedLast (R : Rbatis) : List Call → DynamicWrapper → Option Connective
  | [], _ => none
  | c :: calls, w =>
    if calls.any Call.writes then addedLast R calls (c.apply R w) else added R calls (c.apply R w)

/-! ### Calls append -/

section Append

variable {R : Rbatis}

/-- The edit appends. -/
def Edit.appends : Edit → Bool
  | .connect _ | .write _ | .bind _ _ => true
  | _ => false

theorem Edit.prefix_apply {e : Edit} (he : e.appends = true) (w : DynamicWrapper) :
    w.sql <+: (e.apply R w).sql := by
  cases e with
  | connect k =>
    show w.sql <+: (w.connect R k).sql
    unfold DynamicWrapper.connect
    split_ifs
    · exact List.prefix_rfl
    · exact List.prefix_append _ _
  | write t => exact List.prefix_append _ _
  | bind column v => exact List.prefix_append _ _
  | _ => cases he

theorem Edit.prefix_applyAll {es : List Edit} (hes : ∀ e ∈ es, e.appends = true) (w : DynamicWrapper) :
    w.sql <+: (Edit.applyAll R es w).sql := by
  induction es generalizing w with
  | nil => exact List.prefix_rfl
  | cons e es ih =>
    obtain ⟨he, hes⟩ := List.forall_mem_cons.mp hes
    exact (Edit.prefix_apply he w).trans (ih hes _)

theorem Call.appends_inTailEdits (column : Text) (vs : List Bson) :
    ∀ e ∈ Call.inTailEdits column vs, e.appends = true := by
  intro e he
  obtain ⟨v, -, he⟩ := List.mem_flatMap.mp he
  simp only [List.mem_cons, List.not_mem_nil, or_false] at he
  rcases he with rfl | rfl | rfl | rfl <;> rfl

theorem Call.appends_allEqEdits (map : List (Text × Bson)) :
    ∀ e ∈ Call.allEqEdits R map, e.appends = true := by
  induction map using Call.allEqEdits.induct with
  | case1 => exact List.forall_mem_nil _
  | case2 k v => simp [Call.allEqEdits, Call.bindEdits, Call.andEdit, Edit.appends]
  | case3 k v e map ih =>
    unfold Call.allEqEdits
    simpa [Call.bindEdits, Call.andEdit, Edit.appends] using ih

theorem Call.edits_of_writes {c : Call} (hc : c.writes = true) :
    ∃ es, c.edits R = Call.andEdit R :: es ∧ ∀ e ∈ es, e.appends = true := by
  have hin : ∀ (op column : Text) (vs : List Bson), (!vs.isEmpty) = true →
      ∃ es, Call.inEdits R op column vs = Call.andEdit R :: es ∧ ∀ e ∈ es, e.appends = true := by
    intro op column vs hvs
    cases vs with
    | nil => cases hvs
    | cons v vs =>
      refine ⟨_, rfl, List.forall_mem_append.mpr ⟨?_, by simp [Edit.appends]⟩⟩
      exact List.forall_mem_append.mpr
        ⟨by simp [Edit.appends], Call.appends_inTailEdits column vs⟩
  cases c with
  | inArray column vs | in_ column vs | notIn column vs => exact hin _ column vs hc
  | allEq v =>
    cases v with
    | document map =>
      have hmap : map.isEmpty = false := by simpa [Call.writes] using hc
      rw [Call.edits, hmap, if_neg Bool.false_ne_true]
      refine ⟨_, rfl, List.forall_mem_append.mpr ⟨?_, by simp [Edit.appends]⟩⟩
      exact List.forall_mem_append.mpr ⟨by simp [Edit.appends], Call.appends_allEqEdits map⟩
    | _ => cases hc
  | and | or | having | orderBy | orderBys | groupBy | limit | trimSpace | setFormats => cases hc
  | _ => exact ⟨_, rfl, by simp [Edit.appends]⟩

theorem Edit.exists_applyAll {es : List Edit} (hes : ∀ e ∈ es, e.appends = true) {t : Text}
    (ht : .write t ∈ es) (w : DynamicWrapper) :
    ∃ a b, (Edit.applyAll R es w).sql = w.sql ++ (a ++ t ++ b) := by
  induction es generalizing w with
  | nil => cases ht
  | cons e es ih =>
    obtain ⟨he, hes'⟩ := List.forall_mem_cons.mp hes
    rcases List.mem_cons.mp ht with rfl | ht
    · obtain ⟨b, hb⟩ := Edit.prefix_applyAll (R := R) hes' (w.pushSql t)
      refine ⟨[], b, ?_⟩
      show (Edit.applyAll R es (w.pushSql t)).sql = _
      rw [← hb]
      exact List.append_assoc w.sql t b
    · obtain ⟨a, b, hrest⟩ := ih hes' ht (e.apply R w)
      obtain ⟨a', ha'⟩ := Edit.prefix_apply (R := R) he w
      refine ⟨a' ++ a, b, ?_⟩
      show (Edit.applyAll R es (e.apply R w)).sql = _
      rw [hrest, ← ha']
      simp only [List.append_assoc]

/-- White space and the letters of the connectives. -/
def quiet (c : Char) : Bool := isWhitespace c || "andor".toList.contains c

theorem Call.solid_edit (hR : R.template.Standard) {c : Call} (hc : c.writes = true) :
    ∃ t, .write t ∈ c.edits R ∧ Solid quiet t := by
  obtain ⟨null, hT⟩ := hR.exists_words
  have hin : ∀ (op column : Text) (vs : List Bson), (!vs.isEmpty) = true → '(' ∈ op →
      ∃ t, .write t ∈ Call.inEdits R op column vs ∧ Solid quiet t := by
    intro op column vs hvs hop
    cases vs with
    | nil => cases hvs
    | cons v vs =>
      exact ⟨column ++ op, by simp [Call.inEdits], '(', List.mem_append_right _ hop, by decide⟩
  cases c with
  | eq c v => exact ⟨c ++ " = ".toList, by simp [Call.edits, Call.bindEdits], '=', by simp, by decide⟩
  | ne c v => exact ⟨c ++ " <> ".toList, by simp [Call.edits, Call.bindEdits], '<', by simp, by decide⟩
  | gt c v => exact ⟨c ++ " > ".toList, by simp [Call.edits, Call.bindEdits], '>', by simp, by decide⟩
  | ge c v => exact ⟨c ++ " >= ".toList, by simp [Call.edits, Call.bindEdits], '>', by simp, by decide⟩
  | lt c v => exact ⟨c ++ " < ".toList, by simp [Call.edits, Call.bindEdits], '<', by simp, by decide⟩
  | le c v => exact ⟨c ++ " <= ".toList, by simp [Call.edits, Call.bindEdits], '<', by simp, by decide⟩
  | between c min max | notBetween c min max =>
    refine ⟨_, List.mem_cons_of_mem _ List.mem_cons_self, 'b', ?_, by decide⟩
    rw [hT]
    simp [Template.words, Keyword.spaced]
  | like c v | likeLeft c v | likeRight c v | notLike c v =>
    refine ⟨_, List.mem_cons_of_mem _ List.mem_cons_self, 'k', ?_, by decide⟩
    rw [hT]
    simp [Template.words, Keyword.spaced]
  | isNull c | isNotNull c =>
    refine ⟨_, List.mem_cons_of_mem _ (List.mem_cons_of_mem _ List.mem_cons_self), 's', ?_, by decide⟩
    rw [hT]
    simp [Template.words, Keyword.spaced]
  | inArray column vs | in_ column vs | notIn column vs => exact hin _ column vs hc (by simp)
  | allEq v =>
    cases v with
    | document map =>
      have hmap : map.isEmpty = false := by simpa [Call.writes] using hc
      refine ⟨['('], ?_, '(', List.mem_singleton_self _, by decide⟩
      rw [Call.edits, hmap, if_neg Bool.false_ne_true]
      simp
    | _ => cases hc
  | and | or | having | orderBy | orderBys | groupBy | limit | trimSpace | setFormats => cases hc

/-- **A condition** comes after its connective. -/
theorem Call.sql_of_writes {c : Call} (hc : c.writes = true) (w : DynamicWrapper) :
    (c.apply R w).sql = (w.and R).sql ++ c.written R w := by
  obtain ⟨es, hedits, hes⟩ := Call.edits_of_writes (R := R) hc
  have hprefix : (w.and R).sql <+: (c.apply R w).sql := by
    rw [Call.apply_eq_edits, hedits]
    exact Edit.prefix_applyAll hes (w.and R)
  obtain ⟨t, ht⟩ := hprefix
  unfold Call.written
  rw [← ht, List.drop_left]

theorem Call.solid_written (hR : R.template.Standard) {c : Call} (hc : c.writes = true)
    (w : DynamicWrapper) : Solid quiet (c.written R w) := by
  obtain ⟨es, hedits, hes⟩ := Call.edits_of_writes (R := R) hc
  obtain ⟨t, ht, hsolid⟩ := Call.solid_edit hR hc
  rw [hedits] at ht
  have ht' : .write t ∈ es := (List.mem_cons.mp ht).resolve_left (fun h => by cases h)
  obtain ⟨a, b, hsql⟩ := Edit.exists_applyAll (R := R) hes ht' (w.and R)
  have hwritten : c.written R w = a ++ t ++ b := by
    rw [Call.written, Call.apply_eq_edits, hedits]
    show (Edit.applyAll R es (w.and R)).sql.drop (w.and R).sql.length = _
    rw [hsql, List.drop_left]
  rw [hwritten]
  exact hsolid.mono fun x hx => List.mem_append_left _ (List.mem_append_right _ hx)

theorem Call.sql_of_effect (hR : R.template.Standard) {c : Call} (hjoins : c.joins = true)
    (hc : c.writes = false) (w : DynamicWrapper) : (c.apply R w).sql = w.sql ++ c.appended R w := by
  have hprefix : w.sql <+: (c.apply R w).sql := by
    rw [Call.apply_of_not_writes hR hjoins hc]
    cases c.effect with
    | none => exact List.prefix_rfl
    | some k => exact Edit.prefix_apply (e := .connect k.text) rfl w
  obtain ⟨t, ht⟩ := hprefix
  rw [Call.appended, ← ht, List.drop_left]

theorem added_of_blocked {w : DynamicWrapper} (h : w.notAllowAddAndOnEnd R = true) (calls : List Call) :
    added R calls w = none := if_pos h

theorem added_of_free {w : DynamicWrapper} (h : w.notAllowAddAndOnEnd R = false) (calls : List Call) :
    added R calls w = calls.findSome? Call.asks := by
  rw [added, h]
  exact if_neg Bool.false_ne_true

/-- **One call without a condition** adds the first connective, or none. -/
theorem Call.sql_added (hR : R.template.Standard) {c : Call} (hjoins : c.joins = true)
    (hc : c.writes = false) (calls : List Call) (w : DynamicWrapper) :
    (c.apply R w).sql ++ gapText (added R calls (c.apply R w)) =
      w.sql ++ gapText (added R (c :: calls) w) := by
  have hasks : c.asks = c.effect := by
    rw [Call.asks, hc]
    exact if_neg Bool.false_ne_true
  rw [Call.apply_of_not_writes hR hjoins hc]
  cases heffect : c.effect with
  | none =>
    rw [added, added, List.findSome?_cons, hasks, heffect]
  | some k =>
    by_cases hblocked : w.notAllowAddAndOnEnd R = true
    · show (w.connect R k.text).sql ++ gapText (added R calls (w.connect R k.text)) = _
      rw [DynamicWrapper.connect, if_pos hblocked, added_of_blocked hblocked, added_of_blocked hblocked]
    · have hfree : w.notAllowAddAndOnEnd R = false := by simpa using hblocked
      have hnext : (w.pushSql k.text).notAllowAddAndOnEnd R = true :=
        DynamicWrapper.blocked_of_connective hR k rfl
      show (w.connect R k.text).sql ++ gapText (added R calls (w.connect R k.text)) = _
      rw [DynamicWrapper.connect, if_neg hblocked, added_of_blocked hnext, added_of_free hfree,
        List.findSome?_cons, hasks, heffect]
      exact List.append_nil _

theorem sql_of_none (hR : R.template.Standard) {calls : List Call} (hcalls : ∀ c ∈ calls, c.joins = true)
    (hnone : calls.any Call.writes = false) (w : DynamicWrapper) :
    (calls.foldl (fun w c => c.apply R w) w).sql = w.sql ++ gapText (added R calls w) := by
  induction calls generalizing w with
  | nil =>
    rw [added, List.findSome?_nil, ite_self]
    exact (List.append_nil _).symm
  | cons c calls ih =>
    rw [List.forall_mem_cons] at hcalls
    rw [List.any_cons, Bool.or_eq_false_iff] at hnone
    rw [List.foldl_cons, ih hcalls.2 hnone.2, Call.sql_added hR hcalls.1 hnone.1]

theorem stretch_of_none {calls : List Call} (hnone : calls.any Call.writes = false) (pending : Option Text)
    (w : DynamicWrapper) : stretch R pending calls w = [] := by
  induction calls generalizing pending w with
  | nil => rfl
  | cons c calls ih =>
    rw [List.any_cons, Bool.or_eq_false_iff] at hnone
    rw [stretch, hnone.1, if_neg Bool.false_ne_true]
    exact ih hnone.2 _ _

/-- **After a condition**, with `p` after it: the text goes on with the stretch and at most one
connective. -/
theorem sql_started (hR : R.template.Standard) {calls : List Call}
    (hcalls : ∀ c ∈ calls, c.joins = true) (hany : calls.any Call.writes = true) {s p : Text}
    {w : DynamicWrapper} (h : w.sql = s ++ p) :
    (calls.foldl (fun w c => c.apply R w) w).sql =
      s ++ stretch R (some p) calls w ++ gapText (addedLast R calls w) := by
  induction calls generalizing s p w with
  | nil => cases hany
  | cons c calls ih =>
    rw [List.forall_mem_cons] at hcalls
    rw [List.foldl_cons, stretch, addedLast]
    by_cases hc : c.writes = true
    · have hwritten : (c.apply R w).sql =
          s ++ (p ++ Call.and.appended R w ++ c.written R w) ++ [] := by
        have hand : (w.and R).sql = w.sql ++ Call.and.appended R w :=
          Call.sql_of_effect (c := .and) hR rfl rfl w
        rw [Call.sql_of_writes hc w, hand, h]
        simp only [List.append_assoc, List.append_nil]
      rw [if_pos hc, Option.elim_some]
      by_cases hrest : calls.any Call.writes = true
      · rw [if_pos hrest, ih hcalls.2 hrest hwritten]
        simp only [List.append_assoc]
      · have hnone : calls.any Call.writes = false := by simpa using hrest
        rw [if_neg hrest, sql_of_none hR hcalls.2 hnone, stretch_of_none hnone, hwritten]
        simp only [List.append_assoc]
    · have hc' : c.writes = false := by simpa using hc
      rw [List.any_cons, hc', Bool.false_or] at hany
      have hnext : (c.apply R w).sql = s ++ (p ++ c.appended R w) := by
        rw [Call.sql_of_effect hR hcalls.1 hc', h, List.append_assoc]
      rw [if_neg hc, if_pos hany, ih hcalls.2 hany hnext, Option.map_some]

/-- **The text of a chain** with a condition: the text before the first one, the stretch, and at most one
connective after it. -/
theorem sql_run (hR : R.template.Standard) {calls : List Call} (hcalls : ∀ c ∈ calls, c.joins = true)
    (hany : calls.any Call.writes = true) (w : DynamicWrapper) :
    (calls.foldl (fun w c => c.apply R w) w).sql =
      opening R calls w ++ stretch R none calls w ++ gapText (addedLast R calls w) := by
  induction calls generalizing w with
  | nil => cases hany
  | cons c calls ih =>
    rw [List.forall_mem_cons] at hcalls
    rw [List.foldl_cons, opening, stretch, addedLast]
    by_cases hc : c.writes = true
    · have hwritten : (c.apply R w).sql = (w.and R).sql ++ c.written R w := Call.sql_of_writes hc w
      rw [if_pos hc, if_pos hc, Option.elim_none, List.nil_append]
      by_cases hrest : calls.any Call.writes = true
      · rw [if_pos hrest, sql_started hR hcalls.2 hrest (List.append_nil _).symm, hwritten]
        simp only [List.append_assoc]
      · have hnone : calls.any Call.writes = false := by simpa using hrest
        rw [if_neg hrest, sql_of_none hR hcalls.2 hnone, stretch_of_none hnone, hwritten, List.append_nil]
    · have hc' : c.writes = false := by simpa using hc
      rw [List.any_cons, hc', Bool.false_or] at hany
      rw [if_neg hc, if_neg hc, if_pos hany, ih hcalls.2 hany, Option.map_none]

theorem opening_eq (hR : R.template.Standard) {calls : List Call} (hcalls : ∀ c ∈ calls, c.joins = true)
    (hany : calls.any Call.writes = true) (w : DynamicWrapper) :
    opening R calls w = w.sql ++ gapText (added R calls w) := by
  induction calls generalizing w with
  | nil => cases hany
  | cons c calls ih =>
    rw [List.forall_mem_cons] at hcalls
    rw [opening]
    by_cases hc : c.writes = true
    · have hasks : c.asks = some .and := if_pos hc
      have hand : R.template.and.leftRightSpace = Connective.and.text := by
        rw [hR.eq_words]
        rfl
      rw [if_pos hc, DynamicWrapper.and, DynamicWrapper.connect, hand]
      by_cases hblocked : w.notAllowAddAndOnEnd R = true
      · rw [if_pos hblocked, added_of_blocked hblocked]
        exact (List.append_nil _).symm
      · rw [if_neg hblocked, added_of_free (by simpa using hblocked), List.findSome?_cons, hasks]
        rfl
    · have hc' : c.writes = false := by simpa using hc
      rw [List.any_cons, hc', Bool.false_or] at hany
      rw [if_neg hc, ih hcalls.2 hany, Call.sql_added hR hcalls.1 hc']

theorem solid_stretch (hR : R.template.Standard) {calls : List Call} (hany : calls.any Call.writes = true)
    (pending : Option Text) (w : DynamicWrapper) : Solid quiet (stretch R pending calls w) := by
  induction calls generalizing pending w with
  | nil => cases hany
  | cons c calls ih =>
    rw [stretch]
    by_cases hc : c.writes = true
    · rw [if_pos hc]
      exact (Call.solid_written hR hc w).mono fun x hx =>
        List.mem_append_left _ (List.mem_append_right _ hx)
    · have hc' : c.writes = false := by simpa using hc
      rw [List.any_cons, hc', Bool.false_or] at hany
      rw [if_neg hc]
      exact ih hany _ _

end Append

/-! ## Trimming -/

/-- The word of a connective. -/
def Connective.word : Connective → Text
  | .and => "and".toList
  | .or => "or".toList

/-- No connective stands at an end of the text, white space around the text aside. -/
def Bare (s : Text) : Prop := ∀ k : Connective,
  ¬ k.word ++ [' '] <+: s.dropWhile isWhitespace ∧ ¬ [' '] ++ k.word <:+ trimEnd s

/-- Two passes with the pattern `p` at the start and `q` at the end. -/
def trimTwice (p q s : Text) : Text :=
  trimEndMatches q (trimStartMatches p (trimEndMatches q (trimStartMatches p s)))

theorem exists_power_trimTwice {p q : Text} (hp : p ≠ []) (hq : q ≠ []) (s : Text) :
    ∃ k m, s = power p k ++ trimTwice p q s ++ power q m := by
  obtain ⟨k, hk⟩ := exists_power_trimStartMatches hp s
  obtain ⟨m, hm⟩ := exists_power_trimEndMatches hq (trimStartMatches p s)
  obtain ⟨k', hk'⟩ := exists_power_trimStartMatches hp (trimEndMatches q (trimStartMatches p s))
  obtain ⟨m', hm'⟩ := exists_power_trimEndMatches hq
    (trimStartMatches p (trimEndMatches q (trimStartMatches p s)))
  refine ⟨k + k', m' + m, ?_⟩
  rw [power_add, power_add]
  calc s = power p k ++ trimStartMatches p s := hk
    _ = power p k ++ (trimEndMatches q (trimStartMatches p s) ++ power q m) := by rw [← hm]
    _ = power p k ++ (power p k' ++ (trimTwice p q s ++ power q m') ++ power q m) := by
      rw [trimTwice, ← hm', ← hk']
    _ = power p k ++ power p k' ++ trimTwice p q s ++ (power q m' ++ power q m) := by
      simp only [List.append_assoc]

theorem trimTwice_clean {p q : Text} (hp : p ≠ []) (hq : q ≠ []) (s : Text) :
    ¬ p <+: trimTwice p q s ∧ ¬ q <:+ trimTwice p q s := by
  refine ⟨fun hprefix => ?_, not_suffix_trimEndMatches hq _⟩
  have hstart := hprefix.trans (trimEndMatches_isPrefix q _)
  exact not_prefix_trimStartMatches hp _ hstart

theorem word_append_power (m : ℕ) :
    "and".toList ++ power " and".toList m = power "and ".toList m ++ "and".toList := by
  induction m with
  | zero => rfl
  | succ m ih =>
    rw [power_succ, power_succ, List.append_assoc, ← ih]
    rfl

theorem eq_word_of_prefix {core : Text} {m : ℕ} (hcore : ¬ "and ".toList <+: core)
    (h : "and ".toList <+: core ++ power " and".toList m) : core = "and".toList := by
  have hprefix : core <+: "and ".toList :=
    (List.prefix_or_prefix_of_prefix h (List.prefix_append core _)).resolve_left hcore
  cases m with
  | zero =>
    rw [power_zero, List.append_nil] at h
    exact absurd h hcore
  | succ m =>
    rw [power_succ] at h
    have hmem : core ∈ "and ".toList.inits := (List.mem_inits core _).mpr hprefix
    have hinits : "and ".toList.inits =
        [[], "a".toList, "an".toList, "and".toList, "and ".toList] := rfl
    rw [hinits] at hmem
    simp only [List.mem_cons, List.not_mem_nil, or_false] at hmem
    rcases hmem with rfl | rfl | rfl | rfl | rfl
    · simp at h
    · simp at h
    · simp at h
    · rfl
    · exact absurd List.prefix_rfl hcore

/-- **The two passes** find the text between the connectives `and` at its ends. -/
theorem trimTwice_eq {core : Text} (hstart : ¬ "and ".toList <+: core)
    (hend : ¬ " and".toList <:+ core) (k m : ℕ) :
    trimTwice "and ".toList " and".toList
      (power "and ".toList k ++ core ++ power " and".toList m) = core := by
  have hne : "and ".toList ≠ [] := by decide
  have hne' : " and".toList ≠ [] := by decide
  have hfirst : trimStartMatches "and ".toList (power "and ".toList k ++ core ++ power " and".toList m) =
      trimStartMatches "and ".toList (core ++ power " and".toList m) := by
    rw [List.append_assoc, trimStartMatches_power hne]
  unfold trimTwice
  rw [hfirst]
  by_cases h : "and ".toList <+: core ++ power " and".toList m
  · obtain rfl := eq_word_of_prefix hstart h
    rw [word_append_power, trimStartMatches_power hne, trimStartMatches_of_not hstart,
      trimEndMatches_of_not hend, trimStartMatches_of_not hstart, trimEndMatches_of_not hend]
  · rw [trimStartMatches_of_not h, trimEndMatches_power hne', trimEndMatches_of_not hend,
      trimStartMatches_of_not hstart, trimEndMatches_of_not hend]

/-! ## Around the conditions -/

section Around

theorem quiet_of_isWhitespace {c : Char} (hc : isWhitespace c = true) : quiet c = true := by
  rw [quiet, hc, Bool.true_or]

variable {s t b : Text}

theorem nonblank_of_solid (hs : Solid quiet s) : Solid isWhitespace s := by
  obtain ⟨c, hc, hquiet⟩ := hs
  exact ⟨c, hc, (Bool.or_eq_false_iff.mp hquiet).1⟩

theorem exists_leading (s : Text) :
    ∃ b, (∀ c ∈ b, isWhitespace c = true) ∧ s = b ++ s.dropWhile isWhitespace :=
  ⟨s.takeWhile isWhitespace, fun _ => List.mem_takeWhile_imp, List.takeWhile_append_dropWhile.symm⟩

theorem exists_trailing (s : Text) : ∃ b, (∀ c ∈ b, isWhitespace c = true) ∧ s = trimEnd s ++ b := by
  obtain ⟨b, hb, hs⟩ := exists_leading s.reverse
  refine ⟨b.reverse, fun c hc => hb c (List.mem_reverse.mp hc), ?_⟩
  rw [trimEnd, List.rdropWhile, ← List.reverse_append, ← hs, List.reverse_reverse]

theorem dropWhile_append_of_nonblank (hs : Solid isWhitespace s) (t : Text) :
    (s ++ t).dropWhile isWhitespace = s.dropWhile isWhitespace ++ t := by
  have hne : s.dropWhile isWhitespace ≠ [] := by
    intro hnil
    obtain ⟨c, hc, hblank⟩ := hs
    rw [List.dropWhile_eq_nil_iff.mp hnil c hc] at hblank
    cases hblank
  rw [List.dropWhile_append, if_neg (by simpa using hne)]

theorem trimEnd_append_of_nonblank (hs : Solid isWhitespace s) (t : Text) :
    trimEnd (t ++ s) = t ++ trimEnd s := by
  have hrev : Solid isWhitespace s.reverse := hs.mono fun c hc => List.mem_reverse.mpr hc
  rw [trimEnd, trimEnd, List.rdropWhile, List.rdropWhile, List.reverse_append,
    dropWhile_append_of_nonblank hrev, List.reverse_append, List.reverse_reverse]

theorem trimEnd_append_blank (hb : ∀ c ∈ b, isWhitespace c = true) (s : Text) :
    trimEnd (s ++ b) = trimEnd s := by
  have hb' : ∀ c ∈ b.reverse, isWhitespace c = true := fun c hc => hb c (List.mem_reverse.mp hc)
  rw [trimEnd, trimEnd, List.rdropWhile, List.rdropWhile, List.reverse_append,
    List.dropWhile_append_of_pos hb']

theorem trim_blank_append (hb : ∀ c ∈ b, isWhitespace c = true) (s : Text) : trim (b ++ s) = trim s := by
  rw [trim, trim, List.dropWhile_append_of_pos hb]

theorem solid_of_append_blank (hs : Solid quiet (s ++ b)) (hb : ∀ c ∈ b, isWhitespace c = true) :
    Solid quiet s := by
  obtain ⟨c, hc, hquiet⟩ := hs
  refine ⟨c, (List.mem_append.mp hc).resolve_right fun hcb => ?_, hquiet⟩
  rw [quiet_of_isWhitespace (hb c hcb)] at hquiet
  cases hquiet

theorem solid_trimEnd (hs : Solid quiet s) : Solid quiet (trimEnd s) := by
  obtain ⟨b, hb, heq⟩ := exists_trailing s
  rw [heq] at hs
  exact solid_of_append_blank hs hb

theorem solid_dropWhile (hs : Solid quiet s) : Solid quiet (s.dropWhile isWhitespace) := by
  obtain ⟨b, hb, heq⟩ := exists_leading s
  rw [heq] at hs
  exact solid_of_append_blank (b := b) (hs.mono fun c hc => by simpa [or_comm] using hc) hb

theorem trim_trimEnd (hs : Solid quiet s) : trim (trimEnd s) = trim s := by
  obtain ⟨b, hb, heq⟩ := exists_trailing s
  have hdrop := dropWhile_append_of_nonblank (nonblank_of_solid (solid_trimEnd hs)) b
  rw [← heq] at hdrop
  rw [trim, trim, hdrop]
  exact (trimEnd_append_blank hb _).symm

end Around

theorem prefix_dropWhile {s : Text} {k : Connective} (h : k.word ++ [' '] <+: s) :
    k.word ++ [' '] <+: s.dropWhile isWhitespace := by
  obtain ⟨r, rfl⟩ := h
  refine ⟨r, ?_⟩
  cases k <;> rfl

theorem suffix_trimEnd {s : Text} {k : Connective} (h : [' '] ++ k.word <:+ s) :
    [' '] ++ k.word <:+ trimEnd s := by
  obtain ⟨r, rfl⟩ := h
  refine ⟨r, ?_⟩
  have hlast : ∀ (t : Text) (c : Char), isWhitespace c = false →
      r ++ (t ++ [c]) = trimEnd (r ++ (t ++ [c])) := by
    intro t c hc
    rw [← List.append_assoc, trimEnd_concat _ hc]
  cases k with
  | and => exact hlast " an".toList 'd' (by decide)
  | or => exact hlast " o".toList 'r' (by decide)

theorem Bare.not_prefix {s : Text} (h : Bare s) (k : Connective) : ¬ k.word ++ [' '] <+: s :=
  fun hprefix => (h k).1 (prefix_dropWhile hprefix)

theorem Bare.not_suffix {s : Text} (h : Bare s) (k : Connective) : ¬ [' '] ++ k.word <:+ s :=
  fun hsuffix => (h k).2 (suffix_trimEnd hsuffix)

theorem DynamicWrapper.trimAndOr_sql {R : Rbatis} (hR : R.template.Standard) (w : DynamicWrapper) :
    (w.trimAndOr R).sql = trimTwice "and ".toList " and".toList (trim w.sql) := by
  have hleft : R.template.and.leftSpace = " and".toList := by
    rw [hR.eq_words]
    rfl
  have hright : R.template.and.rightSpace = "and ".toList := by
    rw [hR.eq_words]
    rfl
  unfold DynamicWrapper.trimAndOr DynamicWrapper.trimKeyword trimTwice
  rw [hleft, hright]

/-- **No `and` is left** at an end of the text itself. -/
theorem DynamicWrapper.trimAndOr_clean {R : Rbatis} (hR : R.template.Standard) (w : DynamicWrapper) :
    ¬ "and ".toList <+: (w.trimAndOr R).sql ∧ ¬ " and".toList <:+ (w.trimAndOr R).sql := by
  rw [DynamicWrapper.trimAndOr_sql hR]
  exact trimTwice_clean (by decide) (by decide) _

/-! ## What is left -/

/-- Of the text around the conditions an end is left before them and a beginning after them, white space
around it all aside. -/
def Kept (before core after t : Text) : Prop :=
  ∃ x y, x <:+ before ∧ y <+: after ∧ trim t = trim (x ++ core ++ y)

/-- The text up to the conditions starts with `and ` several times, before the conditions, and then goes on
without a connective. -/
def OpensWell (before core : Text) : Prop := ∃ (n : ℕ) (r : Text),
  (before ++ core).dropWhile isWhitespace = power "and ".toList n ++ r ∧
    core.dropWhile isWhitespace <:+ r ∧ ∀ k : Connective, ¬ k.word ++ [' '] <+: r.dropWhile isWhitespace

section Ends

variable {before core : Text} {tail : Option Connective}

theorem quiet_opening (k : Connective) : ∀ c ∈ k.word ++ [' '], quiet c = true := by
  cases k <;> simp [Connective.word, quiet, isWhitespace]

theorem quiet_closing (k : Connective) : ∀ c ∈ [' '] ++ k.word, quiet c = true := by
  cases k <;> simp [Connective.word, quiet, isWhitespace]

theorem quiet_power (m : ℕ) : ∀ c ∈ power " and".toList m, quiet c = true := by
  have hand : ∀ c ∈ " and".toList, quiet c = true := quiet_closing .and
  intro c hc
  obtain ⟨t, ht, hct⟩ := List.mem_flatten.mp hc
  rw [List.eq_of_mem_replicate ht] at hct
  exact hand c hct

theorem quiet_gapText (tail : Option Connective) : ∀ c ∈ gapText tail, quiet c = true := by
  cases tail with
  | none => exact List.forall_mem_nil _
  | some k => cases k <;> simp [gapText, Connective.text, quiet, isWhitespace]

theorem word_nonblank (k : Connective) : Solid isWhitespace ([' '] ++ k.word) := by
  cases k with
  | and => exact ⟨'a', by decide, by decide⟩
  | or => exact ⟨'o', by decide, by decide⟩

theorem suffix_trimEnd_iff {u : Text} (hcore : Solid quiet core) (k : Connective) :
    [' '] ++ k.word <:+ trimEnd (u ++ core) ↔ [' '] ++ k.word <:+ trimEnd core := by
  rw [trimEnd_append_of_nonblank (nonblank_of_solid hcore)]
  exact ⟨suffix_of_solid (quiet_closing k) (solid_trimEnd hcore),
    fun h => h.trans (List.suffix_append _ _)⟩

/-- **What is enough.** -/
theorem bare_of_opensWell (hcore : Solid quiet core) (hopens : OpensWell before core)
    (hend : ∀ k : Connective, ¬ [' '] ++ k.word <:+ trimEnd core) (htail : tail ≠ some .or) :
    Bare (trimTwice "and ".toList " and".toList (trim (before ++ core ++ gapText tail))) ∧
      Kept before core (gapText tail)
        (trimTwice "and ".toList " and".toList (trim (before ++ core ++ gapText tail))) := by
  obtain ⟨n, r, hdrop, ⟨u, hr⟩, hbegin⟩ := hopens
  have hcore' := solid_dropWhile hcore
  have hsolid : Solid quiet r := by
    rw [← hr]
    exact hcore'.mono (List.subset_append_right _ _)
  obtain ⟨b, hb, hbcore⟩ := exists_leading core
  -- the text is `r` between connectives
  obtain ⟨m, t, htext, ht, htr⟩ : ∃ m t, trim (before ++ core ++ gapText tail) =
      power "and ".toList n ++ t ++ power " and".toList m ∧ trimEnd t = trimEnd r ∧ t <+: r := by
    have hwhole : trim (before ++ core ++ gapText tail) =
        trimEnd (power "and ".toList n ++ r ++ gapText tail) := by
      have hne : Solid isWhitespace (before ++ core) :=
        (nonblank_of_solid hcore).mono (List.subset_append_right _ _)
      rw [trim, dropWhile_append_of_nonblank hne, hdrop]
      rfl
    cases tail with
    | none =>
      obtain ⟨b', hb', hbr⟩ := exists_trailing r
      refine ⟨0, trimEnd r, ?_, ?_, ⟨b', hbr.symm⟩⟩
      · rw [hwhole, power_zero, List.append_nil]
        exact (congrArg trimEnd (List.append_nil _)).trans
          (trimEnd_append_of_nonblank (nonblank_of_solid hsolid) _)
      · have htrim := trimEnd_append_blank hb' (trimEnd r)
        rw [← hbr] at htrim
        exact htrim.symm
    | some k =>
      cases k with
      | and =>
        refine ⟨1, r, ?_, rfl, List.prefix_rfl⟩
        rw [hwhole]
        have hlast := trimEnd_concat_space (power "and ".toList n ++ r ++ " an".toList) (c := 'd')
          (by decide)
        simpa [power, gapText, Connective.text] using hlast
      | or => exact absurd rfl htail
  have hend' : ∀ k : Connective, ¬ [' '] ++ k.word <:+ trimEnd r := by
    intro k hk
    rw [← hr, suffix_trimEnd_iff hcore'] at hk
    refine hend k ?_
    rw [hbcore]
    exact (suffix_trimEnd_iff hcore' k).mpr hk
  have htsolid : Solid quiet t := by
    have htrim := solid_trimEnd hsolid
    rw [← ht] at htrim
    obtain ⟨b', -, hbt⟩ := exists_trailing t
    rw [hbt]
    exact htrim.mono (List.subset_append_left _ _)
  have hbare : Bare t := by
    intro k
    refine ⟨fun hk => hbegin k ?_, fun hk => hend' k (ht ▸ hk)⟩
    obtain ⟨z, rfl⟩ := htr
    rw [dropWhile_append_of_nonblank (nonblank_of_solid htsolid)]
    exact hk.trans (List.prefix_append _ _)
  rw [htext, trimTwice_eq (hbare.not_prefix .and) (hbare.not_suffix .and)]
  refine ⟨hbare, ?_⟩
  have htrim : trim t = trim r := by
    rw [← trim_trimEnd htsolid, ht, trim_trimEnd hsolid]
  -- an end of the text before the conditions is left
  obtain ⟨b', -, hlead⟩ := exists_leading (before ++ core)
  have hsplit : before ++ b = b' ++ power "and ".toList n ++ u := by
    rw [hdrop, ← hr, ← List.append_assoc, ← List.append_assoc] at hlead
    nth_rewrite 1 [hbcore] at hlead
    rw [← List.append_assoc] at hlead
    exact List.append_cancel_right hlead
  have hsuffix : u <:+ before ++ b := hsplit ▸ List.suffix_append _ _
  rcases List.suffix_or_suffix_of_suffix (List.suffix_append before b) hsuffix with ⟨x, rfl⟩ | hub
  · refine ⟨x, [], ?_, List.nil_prefix, ?_⟩
    · rw [← List.append_assoc, List.append_cancel_right_eq] at hsplit
      exact ⟨_, hsplit.symm⟩
    · rw [htrim, List.append_nil, ← hr, List.append_assoc, ← hbcore]
  · refine ⟨[], [], List.nil_suffix, List.nil_prefix, ?_⟩
    rw [htrim, List.append_nil, List.nil_append, ← hr, hbcore, trim_blank_append hb,
      trim_blank_append fun c hc => hb c (hub.subset hc)]
    rw [← hbcore]

theorem blank_of_aligned {y q b b' d : Text} {m : ℕ} (hb : ∀ c ∈ b, isWhitespace c = true)
    (hb' : ∀ c ∈ b', isWhitespace c = true) (hd : ∀ c ∈ d, isWhitespace c = true)
    (hyq : y ++ q = gapText tail) (heq : b ++ power " and".toList m ++ b' = d ++ q)
    (hy : ∀ k : Connective, ¬ [' '] ++ k.word <:+ trimEnd y) :
    (∀ c ∈ y, isWhitespace c = true) ∧ tail ≠ some .or := by
  -- where the rest of the connective is not blank, it holds an `a`
  have ha : ∀ c ∈ q, isWhitespace c = false → 'a' ∈ q := by
    intro c hc hblank
    have hmem : c ∈ b ++ power " and".toList m ++ b' := heq ▸ List.mem_append_right _ hc
    have hpower : c ∈ power " and".toList m := by
      rcases List.mem_append.mp hmem with hmem | hmem
      · refine (List.mem_append.mp hmem).resolve_left fun hcb => ?_
        rw [hb c hcb] at hblank
        cases hblank
      · rw [hb' c hmem] at hblank
        cases hblank
    have hfirst : 'a' ∈ power " and".toList m := by
      cases m with
      | zero => cases hpower
      | succ m =>
        rw [power_succ]
        exact List.mem_append_left _ (by decide)
    have haq : 'a' ∈ d ++ q := heq ▸ List.mem_append_left _ (List.mem_append_right _ hfirst)
    exact (List.mem_append.mp haq).resolve_left fun hab => absurd (hd 'a' hab) (by decide)
  have hinits : y ∈ (gapText tail).inits := (List.mem_inits _ _).mpr ⟨q, hyq⟩
  cases tail with
  | none =>
    have hnil : y = [] := List.prefix_nil.mp ⟨q, hyq⟩
    rw [hnil]
    exact ⟨List.forall_mem_nil _, fun h => by cases h⟩
  | some k =>
    cases k with
    | and =>
      refine ⟨?_, by decide⟩
      have hcases : y ∈ [[], " ".toList, " a".toList, " an".toList, " and".toList, " and ".toList] := hinits
      simp only [List.mem_cons, List.not_mem_nil, or_false] at hcases
      rcases hcases with rfl | rfl | rfl | rfl | rfl | rfl
      · exact List.forall_mem_nil _
      · exact List.forall_mem_singleton.mpr (by decide)
      · obtain rfl : q = "nd ".toList :=
          List.append_cancel_left (show " a".toList ++ q = " a".toList ++ "nd ".toList from hyq)
        exact absurd (ha 'n' (by decide) (by decide)) (by decide)
      · obtain rfl : q = "d ".toList :=
          List.append_cancel_left (show " an".toList ++ q = " an".toList ++ "d ".toList from hyq)
        exact absurd (ha 'd' (by decide) (by decide)) (by decide)
      · exact absurd (show [' '] ++ Connective.and.word <:+ _ by decide) (hy .and)
      · exact absurd (show [' '] ++ Connective.and.word <:+ _ by decide) (hy .and)
    | or =>
      exfalso
      have hcases : y ∈ [[], " ".toList, " o".toList, " or".toList, " or ".toList] := hinits
      simp only [List.mem_cons, List.not_mem_nil, or_false] at hcases
      rcases hcases with rfl | rfl | rfl | rfl | rfl
      · obtain rfl : q = " or ".toList := hyq
        exact absurd (ha 'o' (by decide) (by decide)) (by decide)
      · obtain rfl : q = "or ".toList :=
          List.append_cancel_left (show " ".toList ++ q = " ".toList ++ "or ".toList from hyq)
        exact absurd (ha 'o' (by decide) (by decide)) (by decide)
      · obtain rfl : q = "r ".toList :=
          List.append_cancel_left (show " o".toList ++ q = " o".toList ++ "r ".toList from hyq)
        exact absurd (ha 'r' (by decide) (by decide)) (by decide)
      · exact absurd (show [' '] ++ Connective.or.word <:+ _ by decide) (hy .or)
      · exact absurd (show [' '] ++ Connective.or.word <:+ _ by decide) (hy .or)

/-- **What is needed.** -/
theorem opensWell_of_bare (hcore : Solid quiet core)
    (hbare : Bare (trimTwice "and ".toList " and".toList (trim (before ++ core ++ gapText tail))))
    (hkept : Kept before core (gapText tail)
      (trimTwice "and ".toList " and".toList (trim (before ++ core ++ gapText tail)))) :
    OpensWell before core ∧ (∀ k : Connective, ¬ [' '] ++ k.word <:+ trimEnd core) ∧ tail ≠ some .or := by
  obtain ⟨x, y, ⟨p, hp⟩, ⟨q, hq⟩, htrim⟩ := hkept
  obtain ⟨n, m, htext⟩ := exists_power_trimTwice (p := "and ".toList) (q := " and".toList)
    (by decide) (by decide) (trim (before ++ core ++ gapText tail))
  generalize trimTwice "and ".toList " and".toList (trim (before ++ core ++ gapText tail)) = t at *
  have hbefore : Solid isWhitespace (before ++ core) :=
    (nonblank_of_solid hcore).mono (List.subset_append_right _ _)
  have hz : Solid quiet (x ++ core) := hcore.mono (List.subset_append_right _ _)
  -- white space at the ends of the text, of what is left, and of the conditions with what is left around
  obtain ⟨b, hb, hlead⟩ := exists_leading (before ++ core)
  obtain ⟨b', hb', htrail⟩ := exists_trailing ((before ++ core).dropWhile isWhitespace ++ gapText tail)
  obtain ⟨c, hc, htlead⟩ := exists_leading t
  obtain ⟨c', hc', httrail⟩ := exists_trailing (t.dropWhile isWhitespace)
  obtain ⟨d, hd, hzlead⟩ := exists_leading (x ++ core)
  obtain ⟨d', hd', hztrail⟩ := exists_trailing ((x ++ core).dropWhile isWhitespace ++ y)
  have hwhole : trim (before ++ core ++ gapText tail) =
      trimEnd ((before ++ core).dropWhile isWhitespace ++ gapText tail) := by
    rw [trim, dropWhile_append_of_nonblank hbefore]
    rfl
  have hmid : trim t = trimEnd ((x ++ core).dropWhile isWhitespace ++ y) := by
    rw [htrim, trim, dropWhile_append_of_nonblank (nonblank_of_solid hz)]
    rfl
  have hsolid : Solid quiet (trim t) := by
    rw [hmid]
    exact solid_trimEnd ((solid_dropWhile hz).mono (List.subset_append_left _ _))
  -- what is left stands at one place of the text
  have hleft : t = c ++ trim t ++ c' := by
    rw [List.append_assoc]
    exact htlead.trans (congrArg (c ++ ·) httrail)
  have htext' : before ++ core ++ gapText tail = b ++ trim (before ++ core ++ gapText tail) ++ b' := by
    rw [hwhole, List.append_assoc b, ← htrail, ← List.append_assoc, ← hlead]
  have hinner : x ++ core ++ y = d ++ trim t ++ d' := by
    rw [hmid, List.append_assoc d, ← hztrail, ← List.append_assoc, ← hzlead]
  have halign : b ++ power "and ".toList n ++ c ++ trim t ++ (c' ++ power " and".toList m ++ b') =
      p ++ d ++ trim t ++ (d' ++ q) := by
    calc b ++ power "and ".toList n ++ c ++ trim t ++ (c' ++ power " and".toList m ++ b')
        = b ++ (power "and ".toList n ++ (c ++ trim t ++ c') ++ power " and".toList m) ++ b' := by
          simp only [List.append_assoc]
      _ = before ++ core ++ gapText tail := by rw [← hleft, ← htext, ← htext']
      _ = p ++ (x ++ core ++ y) ++ q := by
          rw [← hp, ← hq]
          simp only [List.append_assoc]
      _ = p ++ d ++ trim t ++ (d' ++ q) := by
          rw [hinner]
          simp only [List.append_assoc]
  have hquiet : ∀ e ∈ c' ++ power " and".toList m ++ b', quiet e = true := by
    rw [List.forall_mem_append, List.forall_mem_append]
    exact ⟨⟨fun e he => quiet_of_isWhitespace (hc' e he), quiet_power m⟩,
      fun e he => quiet_of_isWhitespace (hb' e he)⟩
  have hquiet' : ∀ e ∈ d' ++ q, quiet e = true := by
    rw [List.forall_mem_append]
    exact ⟨fun e he => quiet_of_isWhitespace (hd' e he),
      fun e he => quiet_gapText tail e (hq ▸ List.mem_append_right _ he)⟩
  obtain ⟨hstart, hend⟩ := eq_of_around hsolid hquiet hquiet' halign
  have hdrop : (before ++ core).dropWhile isWhitespace =
      power "and ".toList n ++ (c ++ (x ++ core).dropWhile isWhitespace) := by
    have hsame : b ++ (before ++ core).dropWhile isWhitespace =
        b ++ (power "and ".toList n ++ (c ++ (x ++ core).dropWhile isWhitespace)) := by
      rw [← hlead, ← hp, List.append_assoc p]
      nth_rewrite 1 [hzlead]
      rw [← List.append_assoc p, ← hstart]
      simp only [List.append_assoc]
    exact List.append_cancel_left hsame
  have hsuffix : ∀ e : Text, e <:+ trim t → e <:+ trimEnd t := by
    intro e he
    have hne : Solid isWhitespace (t.dropWhile isWhitespace) := by
      rw [httrail]
      exact (nonblank_of_solid hsolid).mono (List.subset_append_left _ _)
    rw [htlead, trimEnd_append_of_nonblank hne]
    exact he.trans (List.suffix_append _ _)
  obtain ⟨hy, htail⟩ := blank_of_aligned hc' hb' hd' hq hend fun k hk => (hbare k).2 <| hsuffix _ <| by
    have hletter : Solid isWhitespace y := by
      obtain ⟨e, he, hblank⟩ := word_nonblank k
      obtain ⟨b, -, hyb⟩ := exists_trailing y
      exact ⟨e, hyb ▸ List.mem_append_left _ (hk.subset he), hblank⟩
    rw [hmid, trimEnd_append_of_nonblank hletter]
    exact hk.trans (List.suffix_append _ _)
  refine ⟨⟨n, _, hdrop, ?_, fun k hk => ?_⟩, fun k hk => ?_, htail⟩
  · have hcoresuffix : core.dropWhile isWhitespace <:+ (x ++ core).dropWhile isWhitespace := by
      rw [List.dropWhile_append]
      split_ifs
      · exact List.suffix_rfl
      · exact (List.dropWhile_suffix _).trans (List.suffix_append _ _)
    exact hcoresuffix.trans (List.suffix_append _ _)
  · rw [List.dropWhile_append_of_pos hc, List.dropWhile_idempotent] at hk
    have hlong : k.word ++ [' '] <+: trim t ++ d' := by
      rw [hmid, ← hztrail]
      exact hk.trans (List.prefix_append _ _)
    refine (hbare k).1 ?_
    rw [httrail]
    exact (prefix_of_solid (quiet_opening k) hsolid hlong).trans (List.prefix_append _ _)
  · refine (hbare k).2 (hsuffix _ ?_)
    rw [hmid, trimEnd_append_blank hy]
    refine (suffix_trimEnd_iff (u := d) (solid_dropWhile hz) k).mp ?_
    rw [← hzlead]
    exact (suffix_trimEnd_iff hcore k).mpr hk

end Ends

/-! ## What is left -/

section Trimmed

variable (R : Rbatis) (ch : Chain) (w : DynamicWrapper)

/-- After `trim_and_or` no connective stands at an end, and of a statement with conditions only text before
the first one and after the last one is gone. -/
def IsTrimmed : Prop :=
  Bare ((ch.run R w).trimAndOr R).sql ∧
    (ch.calls.any Call.writes = true →
      Kept (opening R ch.calls w) (stretch R none ch.calls w)
        ((ch.run R w).sql.drop (opening R ch.calls w ++ stretch R none ch.calls w).length)
        ((ch.run R w).trimAndOr R).sql)

/-- What the initial text and the calls are asked for. With a condition: the initial text, with the connective
that the calls add to it, opens well; no connective ends the conditions, and no `or` is added after them.
Without one, the initial text with its connective is `and` at both ends. -/
def TrimsWell : Prop :=
  if ch.calls.any Call.writes then
    OpensWell (w.sql ++ gapText (added R ch.calls w)) (stretch R none ch.calls w) ∧
      (∀ k : Connective, ¬ [' '] ++ k.word <:+ trimEnd (stretch R none ch.calls w)) ∧
      addedLast R ch.calls w ≠ some .or
  else ∃ (n m : ℕ) (t : Text), trim (w.sql ++ gapText (added R ch.calls w)) =
    power "and ".toList n ++ t ++ power " and".toList m ∧ Bare t

end Trimmed

/-- **Trimming the connectives.** For every wrapper and all chains of condition and connective calls:
`trim_and_or` leaves all the conditions and no connective at an end just when the initial text goes on without
a connective after its `and`s, one blank apart, no `or` is added after the last condition, and the conditions
do not end with a connective themselves. -/
theorem isTrimmed_iff {R : Rbatis} (hR : R.template.Standard) {ch : Chain}
    (hjoins : ∀ c ∈ ch.calls, c.joins = true) (w : DynamicWrapper) :
    IsTrimmed R ch w ↔ TrimsWell R ch w := by
  rw [IsTrimmed, TrimsWell, DynamicWrapper.trimAndOr_sql hR, Chain.run_eq_calls]
  by_cases hany : ch.calls.any Call.writes = true
  · have hafter := sql_run hR hjoins hany w
    rw [if_pos hany, ← opening_eq hR hjoins hany, forall_prop_of_true hany, hafter, List.drop_left]
    have hsolid := solid_stretch hR hany none w
    exact ⟨fun h => opensWell_of_bare hsolid h.1 h.2, fun h => bare_of_opensWell hsolid h.1 h.2.1 h.2.2⟩
  · have hnone : ch.calls.any Call.writes = false := by simpa using hany
    rw [if_neg hany, sql_of_none hR hjoins hnone, and_iff_left fun h => absurd h hany]
    constructor
    · intro hbare
      obtain ⟨n, m, htext⟩ := exists_power_trimTwice (p := "and ".toList) (q := " and".toList)
        (by decide) (by decide) (trim (w.sql ++ gapText (added R ch.calls w)))
      exact ⟨n, m, _, htext, hbare⟩
    · rintro ⟨n, m, t, htext, hbare⟩
      rw [htext, trimTwice_eq (hbare.not_prefix .and) (hbare.not_suffix .and) n m]
      exact hbare

instance (s : Text) : Decidable (Bare s) :=
  decidable_of_iff
    ((¬ "and ".toList <+: s.dropWhile isWhitespace ∧ ¬ " and".toList <:+ trimEnd s) ∧
      ¬ "or ".toList <+: s.dropWhile isWhitespace ∧ ¬ " or".toList <:+ trimEnd s)
    ⟨fun h k => by
      cases k
      · exact h.1
      · exact h.2, fun h => ⟨h .and, h .or⟩⟩

/-- A condition, `or`, another condition, and a connective after it. -/
def trailingChain (last : Call) : Chain :=
  .call (.eq ['a'] (.int64 1)) (.call .or (.call (.isNull ['b']) (.call last .nil)))

theorem isTrimmed_trailing_and :
    (((trailingChain .and).run .standard ((DynamicWrapper.new .mysql).pushSql
      "and and x > 0".toList)).trimAndOr .standard).sql =
        "x > 0 and a = ? or b is NULL".toList ∧
    IsTrimmed Rbatis.standard (trailingChain .and)
      ((DynamicWrapper.new .mysql).pushSql "and and x > 0".toList) := by
  have hjoins : ∀ c ∈ (trailingChain .and).calls, c.joins = true := by decide
  refine ⟨by decide +kernel, (isTrimmed_iff Template.standard_rbatis hjoins _).mpr ?_⟩
  refine ⟨⟨2, "x > 0 and a = ? or b is NULL".toList, by decide +kernel, by decide +kernel, ?_⟩, ?_, ?_⟩
  · intro k
    cases k <;> decide
  · intro k
    cases k <;> decide +kernel
  · decide +kernel

/-- The `or` after the last condition stays. -/
theorem trailing_or_kept :
    ((trailingChain .or).run Rbatis.standard (.new .mysql)).sql = "a = ? or b is NULL or ".toList ∧
    (((trailingChain .or).run Rbatis.standard (.new .mysql)).trimAndOr Rbatis.standard).sql =
      "a = ? or b is NULL or".toList ∧
    ¬ IsTrimmed Rbatis.standard (trailingChain .or) (.new .mysql) := by
  have hsql : (((trailingChain .or).run Rbatis.standard (.new .mysql)).trimAndOr Rbatis.standard).sql =
      "a = ? or b is NULL or".toList := by decide +kernel
  refine ⟨by decide +kernel, hsql, ?_⟩
  rintro ⟨hbare, -⟩
  rw [hsql] at hbare
  exact hbare.not_suffix .or ⟨"a = ? or b is NULL".toList, by decide⟩

end ChimesUtils
