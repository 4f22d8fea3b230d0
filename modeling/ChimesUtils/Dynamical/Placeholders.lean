import ChimesUtils.Dynamical.Numbering

/-!
# Placeholders of built statements

The statement of a chain of calls without raw fragments, for every driver: it has one placeholder for
each argument, numbered from left to right (`Chain.placeholders_run`).

* `Edit.Tidy`: an edit without raw text that writes no letter of a list; `Call.edits_tidy`: the edits
  of a call are tidy when its texts are;
* `Call.edits_fit`: a call puts no digit after a placeholder, whatever its texts are;
* `Call.values`: the arguments of a call, in the order of its placeholders.
-/

namespace ChimesUtils

open Lib

/-! ## Calls with clean texts -/

/-- The texts a call takes into the statement: columns, keys of a document, `having` texts. -/
def Call.texts : Call → List Text
  | .eq c _ | .ne c _ | .gt c _ | .ge c _ | .lt c _ | .le c _ | .between c _ _ | .notBetween c _ _
  | .like c _ | .likeLeft c _ | .likeRight c _ | .notLike c _ | .isNull c | .isNotNull c
  | .inArray c _ | .in_ c _ | .notIn c _ => [c]
  | .allEq (.document map) => map.map Prod.fst
  | .having h => [h]
  | .orderBy _ cs | .groupBy cs => cs
  | .orderBys cs => cs.map Prod.fst
  | _ => []

/-- The format templates a call sets satisfy `P`. -/
def Call.Templates (P : Text → Prop) : Call → Prop
  | .setFormats f => TemplatesAre P f
  | _ => True

/-- The texts of a call are free of the letters `bad`, and its templates satisfy `P`. -/
structure Call.Clean (bad : List Char) (P : Text → Prop) (c : Call) : Prop where
  texts : ∀ t ∈ c.texts, Avoids bad t
  templates : c.Templates P

theorem Call.Clean.imp {bad bad' : List Char} {P Q : Text → Prop} {c : Call} (h : c.Clean bad P)
    (hbad : ∀ x ∈ bad', x ∈ bad) (hPQ : ∀ s, P s → Q s) : c.Clean bad' Q := by
  refine ⟨fun t ht x hx hb => h.texts t ht x hx (hbad x hb), ?_⟩
  have ht := h.templates
  cases c with
  | setFormats f => exact fun c s hs => hPQ s (ht c s hs)
  | _ => trivial

/-- The arguments a call binds, in the order of its placeholders. -/
def Call.values (R : Rbatis) : Call → List Bson
  | .eq _ v | .ne _ v | .gt _ v | .ge _ v | .lt _ v | .le _ v => [v]
  | .between _ a b | .notBetween _ a b => [a, b]
  | .like _ v | .likeLeft _ v | .likeRight _ v => [.string (DynamicWrapper.likeText R v ++ ['%'])]
  | .notLike _ v => [.string (['%'] ++ DynamicWrapper.likeText R v ++ ['%'])]
  | .inArray _ vs | .in_ _ vs | .notIn _ vs => vs
  | .allEq (.document map) => map.map Prod.snd
  | _ => []

/-- The letters of placeholders that are no letters or digits. -/
abbrev marksOfPlaceholders : List Char := ['?', '$', '@']

/-- An edit of the text or of the arguments that writes no letter of `bad`. -/
def Edit.Tidy (bad : List Char) : Edit → Prop
  | .connect t | .write t => Avoids bad t
  | .raw _ _ | .setFormats _ => False
  | _ => True

section Tidy

variable {R : Rbatis} (hT : R.template.Plain) {bad : List Char}
  (hbad : ∀ c ∈ bad, c ∈ marksOfPlaceholders)

include hbad in
theorem avoids_of_word {s : Text} (hs : ∀ c ∈ s, Keyword.wordChar c = true) : Avoids bad s := by
  intro c hc hb
  have h := hbad c hb
  have hw := hs c hc
  simp only [marksOfPlaceholders, List.mem_cons, List.not_mem_nil, or_false] at h
  rcases h with rfl | rfl | rfl <;> revert hw <;> decide

include hT hbad in
theorem avoids_keyword {k : Keyword} (hk : k ∈ R.template.keywords) :
    ∀ s ∈ k.texts, Avoids bad s := fun s hs => avoids_of_word hbad (hT k hk s hs).2

include hbad in
theorem avoids_fixed {s : Text} (hs : Avoids marksOfPlaceholders s) : Avoids bad s :=
  fun c hc hb => hs c hc (hbad c hb)

/-! ### The parts of a call -/

include hT hbad in
theorem andEdit_tidy : (Call.andEdit R).Tidy bad :=
  avoids_keyword hT hbad (k := R.template.and) (by simp [Template.keywords]) _
    (by simp [Keyword.texts])

include hT hbad in
theorem bindEdits_tidy {text : Text} (ht : Avoids bad text) (column : Text) (v : Bson) :
    ∀ e ∈ Call.bindEdits R text column v, e.Tidy bad := by
  simp only [Call.bindEdits, List.forall_mem_cons]
  exact ⟨andEdit_tidy hT hbad, ht, trivial, List.forall_mem_nil _⟩

include hT hbad in
theorem betweenEdits_tidy {op column : Text} (ht : Avoids bad (column ++ op)) (a b : Bson) :
    ∀ e ∈ Call.betweenEdits R op column a b, e.Tidy bad := by
  simp only [Call.betweenEdits, List.forall_mem_cons]
  refine ⟨andEdit_tidy hT hbad, ht, trivial, ?_, trivial, List.forall_mem_nil _⟩
  have hs : Avoids bad [' '] := avoids_fixed hbad (by simp [Avoids])
  exact (hs.append (avoids_keyword hT hbad (k := R.template.and) (by simp [Template.keywords]) _
    (by simp [Keyword.texts]))).append hs

include hT hbad in
theorem inEdits_tidy {op column : Text} (ht : Avoids bad (column ++ op)) (vs : List Bson) :
    ∀ e ∈ Call.inEdits R op column vs, e.Tidy bad := by
  have hf : ∀ c ∈ [',', ' ', ')'], Avoids bad [c] := by
    simp only [List.forall_mem_cons]
    exact ⟨avoids_fixed hbad (by simp [Avoids]), avoids_fixed hbad (by simp [Avoids]),
      avoids_fixed hbad (by simp [Avoids]), List.forall_mem_nil _⟩
  rcases vs with _ | ⟨v, vs⟩
  · exact List.forall_mem_nil _
  · rw [Call.inEdits, List.forall_mem_append, List.forall_mem_append]
    refine ⟨⟨?_, fun e he => ?_⟩, ?_⟩
    · simp only [List.forall_mem_cons]
      exact ⟨andEdit_tidy hT hbad, ht, hf ' ' (by simp), trivial, hf ' ' (by simp),
        List.forall_mem_nil _⟩
    · rw [Call.inTailEdits, List.mem_flatMap] at he
      obtain ⟨u, -, he⟩ := he
      revert e
      simp only [List.forall_mem_cons]
      exact ⟨hf ',' (by simp), hf ' ' (by simp), trivial, hf ' ' (by simp), List.forall_mem_nil _⟩
    · exact List.forall_mem_singleton.mpr (hf ')' (by simp))

include hT hbad in
theorem allEqEdits_tidy {map : List (Text × Bson)} (h : ∀ t ∈ map.map Prod.fst, Avoids bad t) :
    ∀ e ∈ Call.allEqEdits R map, e.Tidy bad := by
  have heq : Avoids bad " = ".toList := avoids_fixed hbad (by simp [Avoids])
  induction map with
  | nil => exact List.forall_mem_nil _
  | cons e map ih =>
    obtain ⟨k, v⟩ := e
    rw [List.map_cons, List.forall_mem_cons] at h
    rcases map with _ | ⟨e, map⟩
    · exact bindEdits_tidy hT hbad (h.1.append heq) k v
    · rw [Call.allEqEdits, List.forall_mem_append, List.forall_mem_append]
      refine ⟨⟨bindEdits_tidy hT hbad (h.1.append heq) k v, ?_⟩, ih h.2⟩
      rw [List.forall_mem_singleton]
      exact avoids_fixed hbad (by simp [Avoids])

include hbad in
theorem listEdits_tidy {xs : List Text} (h : ∀ t ∈ xs, Avoids bad t) :
    ∀ e ∈ Call.listEdits xs, e.Tidy bad := by
  induction xs with
  | nil => exact List.forall_mem_nil _
  | cons x xs ih =>
    rw [List.forall_mem_cons] at h
    rcases xs with _ | ⟨y, xs⟩
    · exact List.forall_mem_singleton.mpr h.1
    · rw [Call.listEdits_cons_cons, List.forall_mem_append]
      refine ⟨?_, ih h.2⟩
      simp only [List.forall_mem_cons]
      exact ⟨h.1, avoids_fixed hbad (by simp [Avoids]), List.forall_mem_nil _⟩

include hT hbad in
theorem orderItem_avoids {c : Text × Bool} (h : Avoids bad c.1) : Avoids bad (Call.orderItem R c) := by
  refine (h.append (avoids_fixed hbad (by simp [Avoids]))).append ?_
  split_ifs
  · exact avoids_keyword hT hbad (k := R.template.asc) (by simp [Template.keywords]) _
      (by simp [Keyword.texts])
  · exact avoids_keyword hT hbad (k := R.template.desc) (by simp [Template.keywords]) _
      (by simp [Keyword.texts])

include hT hbad in
theorem orderEdits_tidy {cs : List (Text × Bool)} (h : ∀ t ∈ cs.map Prod.fst, Avoids bad t) :
    ∀ e ∈ Call.orderEdits R cs, e.Tidy bad := by
  rw [Call.orderEdits]
  split_ifs
  · exact List.forall_mem_nil _
  · simp only [List.forall_mem_append, List.forall_mem_cons]
    refine ⟨⟨⟨trivial, trivial, ?_, List.forall_mem_nil _⟩, listEdits_tidy hbad ?_⟩, ?_,
      List.forall_mem_nil _⟩
    · exact avoids_keyword hT hbad (k := R.template.orderBy) (by simp [Template.keywords]) _
        (by simp [Keyword.texts])
    · intro t ht
      obtain ⟨c, hc, rfl⟩ := List.mem_map.mp ht
      exact orderItem_avoids hT hbad (h c.1 (List.mem_map_of_mem hc))
    · exact avoids_fixed hbad (by simp [Avoids])

include hT hbad in
theorem groupEdits_tidy {cs : List Text} (h : ∀ t ∈ cs, Avoids bad t) :
    ∀ e ∈ Call.groupEdits R cs, e.Tidy bad := by
  rw [Call.groupEdits]
  split_ifs
  · exact List.forall_mem_nil _
  · simp only [List.forall_mem_append, List.forall_mem_cons]
    refine ⟨⟨⟨trivial, trivial, ?_, List.forall_mem_nil _⟩, listEdits_tidy hbad h⟩, ?_,
      List.forall_mem_nil _⟩
    · exact avoids_keyword hT hbad (k := R.template.groupBy) (by simp [Template.keywords]) _
        (by simp [Keyword.texts])
    · exact avoids_fixed hbad (by simp [Avoids])

/-! ### Calls -/

include hT hbad in
/-- The edits of a call with clean texts are tidy. -/
theorem Call.edits_tidy {c : Call} (h : ∀ t ∈ c.texts, Avoids bad t)
    (hf : ∀ f, c ≠ .setFormats f) : ∀ e ∈ c.edits R, e.Tidy bad := by
  have hs : Avoids bad [' '] := avoids_fixed hbad (by simp [Avoids])
  have hk : ∀ k ∈ R.template.keywords, ∀ t ∈ k.texts, Avoids bad t := fun k =>
    avoids_keyword hT hbad
  have hv : ∀ k ∈ R.template.keywords, Avoids bad k.value := fun k hm =>
    hk k hm _ (by simp [Keyword.texts])
  have hl : ∀ k ∈ R.template.keywords, Avoids bad k.leftSpace := fun k hm =>
    hk k hm _ (by simp [Keyword.texts])
  have hnot : Avoids bad ([' '] ++ R.template.not.value ++ [' ']) :=
    (hs.append (hv _ (by simp [Template.keywords]))).append hs
  have hlike : Avoids bad R.template.like.value := hv _ (by simp [Template.keywords])
  have hbetween : Avoids bad R.template.between.value := hv _ (by simp [Template.keywords])
  have hin : Avoids bad (R.template.in_.value ++ " (".toList) :=
    (hv _ (by simp [Template.keywords])).append (avoids_fixed hbad (by simp [Avoids]))
  have hand := andEdit_tidy hT hbad
  cases c with
  | eq c v | ne c v | gt c v | ge c v | lt c v | le c v =>
    exact bindEdits_tidy hT hbad ((h c (by simp [texts])).append
      (avoids_fixed hbad (by simp [Avoids]))) c v
  | between c a b =>
    exact betweenEdits_tidy hT hbad ((h c (by simp [texts])).append
      ((hs.append hbetween).append hs)) a b
  | notBetween c a b =>
    exact betweenEdits_tidy hT hbad ((h c (by simp [texts])).append
      ((hnot.append hbetween).append hs)) a b
  | like c v | likeLeft c v | likeRight c v =>
    exact bindEdits_tidy hT hbad ((h c (by simp [texts])).append ((hs.append hlike).append hs)) c _
  | notLike c v =>
    exact bindEdits_tidy hT hbad ((h c (by simp [texts])).append ((hnot.append hlike).append hs)) c _
  | isNull c =>
    simp only [edits, List.forall_mem_cons]
    exact ⟨hand, h c (by simp [texts]), hl _ (by simp [Template.keywords]),
      hl _ (by simp [Template.keywords]), List.forall_mem_nil _⟩
  | isNotNull c =>
    simp only [edits, List.forall_mem_cons]
    exact ⟨hand, h c (by simp [texts]), hl _ (by simp [Template.keywords]),
      hl _ (by simp [Template.keywords]), hl _ (by simp [Template.keywords]), List.forall_mem_nil _⟩
  | inArray c vs | in_ c vs =>
    refine inEdits_tidy hT hbad ((h c (by simp [texts])).append ?_) vs
    rw [List.append_assoc]
    exact hs.append hin
  | notIn c vs =>
    refine inEdits_tidy hT hbad ((h c (by simp [texts])).append ?_) vs
    rw [List.append_assoc]
    exact hnot.append hin
  | allEq v =>
    cases v with
    | document map =>
      rw [edits]
      split_ifs
      · exact List.forall_mem_singleton.mpr hand
      · simp only [List.forall_mem_append, List.forall_mem_cons]
        exact ⟨⟨⟨hand, avoids_fixed hbad (by simp [Avoids]), List.forall_mem_nil _⟩,
          allEqEdits_tidy hT hbad h⟩, avoids_fixed hbad (by simp [Avoids]), List.forall_mem_nil _⟩
    | _ => exact List.forall_mem_singleton.mpr hand
  | and => exact List.forall_mem_singleton.mpr hand
  | or =>
    exact List.forall_mem_singleton.mpr (hk R.template.or (by simp [Template.keywords]) _
      (by simp [Keyword.texts]))
  | having t =>
    simp only [edits, List.forall_mem_cons]
    exact ⟨hand, ((hv _ (by simp [Template.keywords])).append hs).append (h t (by simp [texts])),
      List.forall_mem_nil _⟩
  | orderBy a cs =>
    refine orderEdits_tidy hT hbad fun t ht => h t ?_
    simpa [texts] using ht
  | orderBys cs => exact orderEdits_tidy hT hbad h
  | groupBy cs => exact groupEdits_tidy hT hbad h
  | limit n =>
    simp only [edits, List.forall_mem_cons]
    refine ⟨(hs.append (hv _ (by simp [Template.keywords]))).append hs, ?_, hs, List.forall_mem_nil _⟩
    refine avoids_fixed hbad fun x hx hm => ?_
    have hd := isDigit_of_mem_decimal hx
    simp only [marksOfPlaceholders, List.mem_cons, List.not_mem_nil, or_false] at hm
    rcases hm with rfl | rfl | rfl <;> revert hd <;> decide
  | trimSpace => exact List.forall_mem_singleton.mpr trivial
  | setFormats f => exact absurd rfl (hf f)

end Tidy

/-! ## Spacing of calls -/

section Fit

variable {R : Rbatis} (hT : R.template.Plain)

theorem not_digit_of_wordChar {c : Char} (h : Keyword.wordChar c = true) : c.isDigit = false := by
  rw [← Bool.not_eq_true]
  intro hd
  rw [slotLast_not_wordChar (Or.inr hd)] at h
  cases h

include hT in
theorem keyword_fits {k : Keyword} (hk : k ∈ R.template.keywords) :
    k.leftRightSpace ≠ [] ∧ ∀ c ∈ k.leftRightSpace, c.isDigit = false := by
  have h := hT k hk k.leftRightSpace (by simp [Keyword.texts])
  exact ⟨h.1, fun c hc => not_digit_of_wordChar (h.2 c hc)⟩

include hT in
theorem andEdit_fits (o : Bool) : (Call.andEdit R).Fits o :=
  keyword_fits hT (k := R.template.and) (by simp [Template.keywords])

include hT in
theorem bindEdits_fit (text column : Text) (v : Bson) :
    Edit.AllFit false (Call.bindEdits R text column v) :=
  ⟨andEdit_fits hT _, Or.inl rfl, rfl, trivial⟩

include hT in
theorem betweenEdits_fit (op column : Text) (a b : Bson) :
    Edit.AllFit false (Call.betweenEdits R op column a b) :=
  ⟨andEdit_fits hT _, Or.inl rfl, rfl, Or.inr fun c hc => by cases hc; rfl, rfl, trivial⟩

theorem inTailEdits_fit (column : Text) (vs : List Bson) :
    Edit.AllFit false (Call.inTailEdits column vs) := by
  induction vs with
  | nil => trivial
  | cons v vs ih =>
    rw [Call.inTailEdits, List.flatMap_cons, ← Call.inTailEdits]
    refine Edit.AllFit.append ?_ ih
    exact ⟨Or.inr fun c hc => by cases hc; rfl, Or.inl rfl, rfl, Or.inr fun c hc => by cases hc; rfl,
      trivial⟩

include hT in
theorem inEdits_fit (op column : Text) (vs : List Bson) :
    Edit.AllFit false (Call.inEdits R op column vs) := by
  rcases vs with _ | ⟨v, vs⟩
  · trivial
  · refine Edit.AllFit.append (Edit.AllFit.append ?_ (inTailEdits_fit column vs)) ?_
    · exact ⟨andEdit_fits hT _, Or.inl rfl, Or.inl rfl, rfl, Or.inr fun c hc => by cases hc; rfl,
        trivial⟩
    · exact ⟨Or.inr fun c hc => by cases hc; rfl, trivial⟩

include hT in
theorem allEqEdits_fit (map : List (Text × Bson)) : Edit.AllFit false (Call.allEqEdits R map) := by
  induction map with
  | nil => trivial
  | cons e map ih =>
    obtain ⟨k, v⟩ := e
    rcases map with _ | ⟨e, map⟩
    · exact bindEdits_fit hT _ _ _
    · refine Edit.AllFit.append (Edit.AllFit.append (bindEdits_fit hT _ _ _) ?_) ih
      exact ⟨Or.inr fun c hc => by cases hc; rfl, trivial⟩

theorem writes_fit {es : List Edit} (h : ∀ e ∈ es, ∃ t, e = .write t) : Edit.AllFit true es := by
  induction es with
  | nil => trivial
  | cons e es ih =>
    rw [List.forall_mem_cons] at h
    obtain ⟨t, rfl⟩ := h.1
    exact ⟨Or.inl rfl, ih h.2⟩

theorem listEdits_write (xs : List Text) : ∀ e ∈ Call.listEdits xs, ∃ t, e = .write t := by
  induction xs with
  | nil => exact List.forall_mem_nil _
  | cons x xs ih =>
    rcases xs with _ | ⟨y, xs⟩
    · exact List.forall_mem_singleton.mpr ⟨x, rfl⟩
    · rw [Call.listEdits_cons_cons, List.forall_mem_append]
      refine ⟨?_, ih⟩
      simp only [List.forall_mem_cons]
      exact ⟨⟨x, rfl⟩, ⟨_, rfl⟩, List.forall_mem_nil _⟩

include hT in
theorem keywordList_fit {k : Keyword} (hk : k ∈ R.template.keywords) (xs : List Text) :
    Edit.AllFit false ([.write k.leftRightSpace] ++ Call.listEdits xs ++ [.write [' ']]) := by
  obtain ⟨hne, hdig⟩ := keyword_fits hT hk
  rw [List.append_assoc]
  refine ⟨Or.inr fun c hc => hdig c (List.mem_of_mem_head? hc), ?_⟩
  have hopen : (Edit.write k.leftRightSpace).opens false = true := by simpa [Edit.opens] using hne
  rw [hopen]
  change Edit.AllFit true (Call.listEdits xs ++ [.write [' ']])
  refine writes_fit (List.forall_mem_append.mpr ⟨listEdits_write xs, ?_⟩)
  exact List.forall_mem_singleton.mpr ⟨_, rfl⟩

include hT in
theorem orderEdits_fit (cs : List (Text × Bool)) : Edit.AllFit false (Call.orderEdits R cs) := by
  rw [Call.orderEdits]
  split_ifs
  · trivial
  · exact ⟨trivial, trivial, keywordList_fit hT (by simp [Template.keywords]) _⟩

include hT in
theorem groupEdits_fit (cs : List Text) : Edit.AllFit false (Call.groupEdits R cs) := by
  rw [Call.groupEdits]
  split_ifs
  · trivial
  · exact ⟨trivial, trivial, keywordList_fit hT (by simp [Template.keywords]) _⟩

include hT in
/-- **A call puts no digit after a placeholder.** -/
theorem Call.edits_fit (c : Call) : Edit.AllFit false (c.edits R) := by
  cases c with
  | eq c v | ne c v | gt c v | ge c v | lt c v | le c v | like c v | likeLeft c v | likeRight c v
  | notLike c v => exact bindEdits_fit hT _ _ _
  | between c a b | notBetween c a b => exact betweenEdits_fit hT _ _ _ _
  | isNull c => exact ⟨andEdit_fits hT _, Or.inl rfl, Or.inl rfl, Or.inl rfl, trivial⟩
  | isNotNull c =>
    exact ⟨andEdit_fits hT _, Or.inl rfl, Or.inl rfl, Or.inl rfl, Or.inl rfl, trivial⟩
  | inArray c vs | in_ c vs | notIn c vs => exact inEdits_fit hT _ _ _
  | allEq v =>
    cases v with
    | document map =>
      rw [edits]
      split_ifs
      · exact ⟨andEdit_fits hT _, trivial⟩
      · refine Edit.AllFit.append (Edit.AllFit.append ?_ (allEqEdits_fit hT map)) ?_
        · exact ⟨andEdit_fits hT _, Or.inl rfl, trivial⟩
        · exact ⟨Or.inr fun c hc => by cases hc; rfl, trivial⟩
    | _ => exact ⟨andEdit_fits hT _, trivial⟩
  | and => exact ⟨andEdit_fits hT _, trivial⟩
  | or => exact ⟨keyword_fits hT (by simp [Template.keywords]), trivial⟩
  | having t => exact ⟨andEdit_fits hT _, Or.inl rfl, trivial⟩
  | orderBy a cs => exact orderEdits_fit hT _
  | orderBys cs => exact orderEdits_fit hT cs
  | groupBy cs => exact groupEdits_fit hT cs
  | limit n => exact ⟨Or.inr fun c hc => by cases hc; rfl, Or.inl rfl, Or.inl rfl, trivial⟩
  | trimSpace => exact ⟨trivial, trivial⟩
  | setFormats f => exact ⟨trivial, trivial⟩

end Fit

/-! ## Arguments of calls -/

theorem inTailEdits_values (column : Text) (vs : List Bson) :
    (Call.inTailEdits column vs).flatMap Edit.values = vs := by
  induction vs with
  | nil => rfl
  | cons v vs ih =>
    rw [Call.inTailEdits, List.flatMap_cons, ← Call.inTailEdits, List.flatMap_append, ih]
    rfl

theorem inEdits_values (R : Rbatis) (op column : Text) (vs : List Bson) :
    (Call.inEdits R op column vs).flatMap Edit.values = vs := by
  rcases vs with _ | ⟨v, vs⟩
  · rfl
  · rw [Call.inEdits, List.flatMap_append, List.flatMap_append, inTailEdits_values]
    simp [Edit.values, Call.andEdit]

theorem allEqEdits_values (R : Rbatis) (map : List (Text × Bson)) :
    (Call.allEqEdits R map).flatMap Edit.values = map.map Prod.snd := by
  induction map with
  | nil => rfl
  | cons e map ih =>
    obtain ⟨k, v⟩ := e
    rcases map with _ | ⟨e, map⟩
    · rfl
    · rw [Call.allEqEdits, List.flatMap_append, List.flatMap_append, ih]
      rfl

theorem writes_values {es : List Edit} (h : ∀ e ∈ es, ∃ t, e = .write t) :
    es.flatMap Edit.values = [] := by
  rw [List.flatMap_eq_nil_iff]
  intro e he
  obtain ⟨t, rfl⟩ := h e he
  rfl

theorem Call.edits_values (R : Rbatis) (c : Call) :
    (c.edits R).flatMap Edit.values = c.values R := by
  cases c with
  | inArray c vs | in_ c vs | notIn c vs => exact inEdits_values R _ _ vs
  | allEq v =>
    cases v with
    | document map =>
      rw [edits]
      split_ifs with h
      · rw [List.isEmpty_iff.mp h]
        rfl
      · rw [List.flatMap_append, List.flatMap_append, allEqEdits_values]
        exact List.append_nil _
    | _ => rfl
  | orderBy a cs | orderBys cs =>
    rw [edits, orderEdits]
    split_ifs
    · rfl
    · rw [List.flatMap_append, List.flatMap_append, writes_values (listEdits_write _)]
      rfl
  | groupBy cs =>
    rw [edits, groupEdits]
    split_ifs
    · rfl
    · rw [List.flatMap_append, List.flatMap_append, writes_values (listEdits_write _)]
      rfl
  | _ => rfl

/-! ## The statement of a chain -/

/-- The draft of a chain. -/
def Chain.draft (R : Rbatis) (ch : Chain) : Draft := Edit.draftAll R (ch.edits R) Draft.new

section Statement

variable {R : Rbatis} {ch : Chain}

theorem Chain.refines (hR : R.Numbered) (hT : R.template.Plain) {d : DriverType} (hd : d ≠ .none)
    (ch : Chain) : Refines R d (ch.draft R) (ch.run R (.new d)) := by
  rw [Chain.run_eq_edits]
  exact (Refines.new R d).applyAll hR hT hd _

theorem Chain.args_draft (ch : Chain) : (ch.draft R).args = ch.calls.flatMap (Call.values R) := by
  rw [Chain.draft, Edit.args_draftAll, Chain.edits, List.flatMap_assoc]
  exact List.flatMap_congr fun c _ => Call.edits_values R c

theorem Chain.edits_clean (hT : R.template.Plain) {bad : List Char}
    (hbad : ∀ c ∈ bad, c ∈ marksOfPlaceholders) {P : Text → Prop}
    (hch : ∀ c ∈ ch.calls, c.Clean bad P) :
    ∀ e ∈ ch.edits R, e.Tidy bad ∨ ∃ f, e = .setFormats f ∧ TemplatesAre P f := by
  intro e he
  obtain ⟨c, hc, he⟩ := List.mem_flatMap.mp he
  by_cases hf : ∃ f, c = .setFormats f
  · obtain ⟨f, rfl⟩ := hf
    exact Or.inr ⟨f, List.mem_singleton.mp he, (hch _ hc).templates⟩
  · exact Or.inl (Call.edits_tidy hT hbad (hch c hc).texts (not_exists.mp hf) e he)

theorem Edit.Tidy.templates {bad : List Char} {e : Edit} (h : e.Tidy bad) (P : Text → Prop) :
    e.Templates P := by
  cases e with
  | setFormats f => exact h.elim
  | _ => trivial

theorem Edit.Tidy.filled {bad : List Char} {e : Edit} (h : e.Tidy bad) : e.Filled := by
  cases e with
  | raw t vs => exact h.elim
  | _ => trivial

theorem Edit.Tidy.letters {bad : List Char} (hbad : ∀ c ∈ bad, c ∈ marksOfPlaceholders) {e : Edit}
    (h : e.Tidy bad) : Avoids bad e.letters := by
  cases e with
  | connect t | write t => exact h
  | raw t vs => exact h.elim
  | squeeze => exact avoids_fixed hbad (by simp [Avoids, Edit.letters])
  | _ => exact List.forall_mem_nil _

variable (hT : R.template.Plain) {bad : List Char} (hbad : ∀ c ∈ bad, c ∈ marksOfPlaceholders)
  (hch : ∀ c ∈ ch.calls, c.Clean bad (CleanTemplate bad))

include hT hbad hch in
theorem Chain.draft_clean : (ch.draft R).Clean bad := by
  refine (Draft.clean_new bad).applyAll fun e he => ?_
  rcases Chain.edits_clean hT hbad hch e he with h | ⟨f, rfl, hf⟩
  · exact ⟨h.letters hbad, h.templates _⟩
  · exact ⟨List.forall_mem_nil _, hf⟩

include hT hbad hch in
theorem Chain.draft_numbered : (ch.draft R).Numbered := by
  refine Draft.numbered_new.applyAll hT fun e he => ?_
  rcases Chain.edits_clean hT hbad hch e he with h | ⟨f, rfl, hf⟩
  · exact ⟨h.filled, h.templates _⟩
  · exact ⟨trivial, fun c s hs => (hf c s hs).1⟩

include hT hbad hch in
theorem Chain.draft_built : ∀ s ∈ marks (ch.draft R).pieces, s.raw = false := by
  refine Edit.draftAll_built hT (fun e he => ?_) (fun _ _ h => nomatch h) (List.forall_mem_nil _)
  rcases Chain.edits_clean hT hbad hch e he with h | ⟨f, rfl, hf⟩
  · exact ⟨fun t vs hr => by rw [hr] at h; exact h, h.templates _⟩
  · exact ⟨(by rintro t vs ⟨⟩), fun c s hs => (hf c s hs).1⟩

include hT hbad hch in
theorem Chain.marks_draft : marks (ch.draft R).pieces =
    (List.range (ch.draft R).args.length).map fun i => ⟨i, false⟩ := by
  rw [← (Chain.draft_numbered hT hbad hch).index, List.map_map]
  refine (List.map_id _).symm.trans (List.map_congr_left fun s hs => ?_)
  rw [Function.comp_apply, ← Chain.draft_built hT hbad hch s hs]
  rfl

theorem render_draft (d : DriverType) {D : Draft} (h : ∀ s ∈ marks D.pieces, s.raw = false) :
    render (Slot.text R d) D.pieces = render (fun s => R.stmtConvert d s.index) D.pieces :=
  render_congr _ fun s hs => by rw [Slot.text, h s hs]; rfl

theorem filter_render {f : Slot → Text} (hf : ∀ s, f s = ['?']) {E : Marked Char Slot}
    (hE : '?' ∉ letters E) :
    ((render f E).filter (· = '?')).map (fun c => [c]) = (marks E).map f := by
  induction E with
  | nil => rfl
  | cons x E ih =>
    rcases x with c | s
    · rw [letters_inl_cons, List.mem_cons, not_or] at hE
      rw [render_inl_cons, List.filter_cons_of_neg (by simpa using Ne.symm hE.1), ih hE.2,
        marks_inl_cons]
    · rw [render_inr_cons, hf, List.cons_append, List.nil_append,
        List.filter_cons_of_pos (by simp), List.map_cons, ih hE, marks_inr_cons, List.map_cons, hf]

theorem placeholders_render (hR : R.Numbered) {d : DriverType} (hd : d ≠ .none)
    {E : Marked Char Slot} (hE : Avoids marksOfPlaceholders (letters E))
    (hs : Separated Char.isDigit E) :
    placeholders d (render (fun s => R.stmtConvert d s.index) E) =
      (marks E).map fun s => R.stmtConvert d s.index := by
  have hnot : ∀ c ∈ marksOfPlaceholders, c ∉ letters E := fun c hc h => hE c h hc
  cases d with
  | none => exact absurd rfl hd
  | mysql => exact filter_render (fun s => hR.mysql s.index) (hnot '?' (by simp))
  | sqlite => exact filter_render (fun s => hR.sqlite s.index) (hnot '?' (by simp))
  | postgres =>
    refine tokens_render (fun s => ⟨_, hR.postgres s.index, decimal_ne_nil _, fun c hc => ?_⟩)
      (hnot '$' (by simp)) hs
    exact isDigit_of_mem_decimal hc
  | mssql =>
    refine tokens_render (fun s => ⟨_, hR.mssql s.index, decimal_ne_nil _, fun c hc => ?_⟩)
      (hnot '@' (by simp)) hs
    exact isDigit_of_mem_decimal hc

/-- **Placeholders of a chain.** For every driver, the placeholders of the statement are those of
the indices `0, 1, …` from left to right, one for each argument; the arguments are those of the
executed calls in order, and the placeholder that a call wrote for an argument is the one with the
position of that argument. -/
theorem Chain.placeholders_run (hR : R.Numbered) (hT : R.template.Plain) {d : DriverType}
    (hd : d ≠ .none) (hch : ∀ c ∈ ch.calls, c.Clean marksOfPlaceholders
      fun s => CleanTemplate marksOfPlaceholders s ∧ Undigited s) :
    placeholders d (ch.run R (.new d)).sql =
        (List.range (ch.run R (.new d)).args.length).map (R.stmtConvert d) ∧
      (ch.run R (.new d)).args = ch.calls.flatMap (Call.values R) ∧
      (ch.run R (.new d)).sql = render (Slot.text R d) (ch.draft R).pieces ∧
      marks (ch.draft R).pieces =
        (List.range (ch.run R (.new d)).args.length).map fun i => ⟨i, false⟩ := by
  have hch' : ∀ c ∈ ch.calls, c.Clean marksOfPlaceholders (CleanTemplate marksOfPlaceholders) :=
    fun c hc => (hch c hc).imp (fun _ h => h) fun _ h => h.1
  have href := Chain.refines hR hT hd ch
  have hmarks := Chain.marks_draft hT (fun _ h => h) hch'
  have hsep : Separated Char.isDigit (ch.draft R).pieces := by
    refine (Draft.spaced_new false).applyAll hT (fun _ _ h => nomatch h)
      (Edit.allFit_flatMap fun c _ => Call.edits_fit hT c) fun e he => ?_
    rcases Chain.edits_clean hT (fun _ h => h) hch e he with h | ⟨f, rfl, hf⟩
    · exact h.templates _
    · exact fun c s hs => ⟨(hf c s hs).1.1, (hf c s hs).2⟩
  refine ⟨?_, href.args.trans ch.args_draft, href.sql, href.args ▸ hmarks⟩
  rw [href.sql, render_draft d (Chain.draft_built hT (fun _ h => h) hch'),
    placeholders_render hR hd (Chain.draft_clean hT (fun _ h => h) hch').letters hsep, hmarks,
    href.args, List.map_map]
  rfl

end Statement

/-- A chain with a format template, a branch, a range and a membership list. -/
def Chain.dated : Chain :=
  .call (.setFormats fun c => if c = "day".toList then some "date({})".toList else none) <|
  .call (.eq "id".toList (.int64 7)) <|
  .doIf true (.call (.between "day".toList (.int64 1) (.int64 2)) .nil) <|
  .call (.in_ "kind".toList [.int64 3, .int64 4]) .nil

theorem Chain.dated_clean : ∀ c ∈ dated.calls, c.Clean marksOfPlaceholders
    fun s => CleanTemplate marksOfPlaceholders s ∧ Undigited s := by
  have hsource : CleanTemplate marksOfPlaceholders "date({})".toList ∧
      Undigited "date({})".toList := by
    refine ⟨⟨by decide, by simp [Avoids]⟩, fun c hc h => ?_⟩
    simp only [hole, List.cons_append, List.nil_append] at h
    have : c = ')' := by simpa [List.infix_cons_iff, List.prefix_cons_iff] using h
    rw [this] at hc
    cases hc
  simp only [dated, doIf, calls, if_true, List.cons_append, List.nil_append, List.forall_mem_cons]
  refine ⟨⟨List.forall_mem_nil _, fun c s hs => ?_⟩, ⟨?_, trivial⟩, ⟨?_, trivial⟩, ⟨?_, trivial⟩,
    List.forall_mem_nil _⟩
  · dsimp only at hs
    split_ifs at hs
    exact Option.some.inj hs ▸ hsource
  all_goals simp [Call.texts, Avoids]

theorem Chain.placeholders_dated :
    placeholders .postgres (dated.run .standard (.new .postgres)).sql =
      ["$1".toList, "$2".toList, "$3".toList, "$4".toList, "$5".toList] :=
  (Chain.placeholders_run Rbatis.standard_numbered Template.standard_rbatis.plain (by decide) dated_clean).1

end ChimesUtils
