import ChimesUtils.Dynamical.Chain

/-!
# Drafts of statements

A draft is a statement in which the places of the arguments are slots instead of placeholder texts.
It says what the builder is for: the slot written for an argument carries the position of that
argument. The edits run on drafts without knowing the driver (`Edit.draft`), and for every driver
the wrapper is a rendering of the draft:

* `Refines R d D w`: the statement of `w` is the draft `D` with its slots written for driver `d`;
* `Refines.apply`, `Refines.applyAll`: edits keep the refinement;
* `Draft.Sound`, `Sound.applyAll`: the slots of a draft are numbered `0, 1, …` from left to right, one
  for each argument.
-/

namespace ChimesUtils

open Lib

/-- The place of an argument: its position, and whether a raw fragment wrote it. -/
structure Slot where
  index : ℕ
  raw : Bool
  deriving DecidableEq

/-- The text of a slot for a driver. -/
def Slot.text (R : Rbatis) (d : DriverType) (s : Slot) : Text :=
  if s.raw then ['?'] else R.stmtConvert d s.index

/-- A statement with slots. -/
structure Draft where
  pieces : Marked Char Slot
  args : List Bson
  formats : Text → Option Text

namespace Draft

def new : Draft := ⟨[], [], fun _ => none⟩

def write (D : Draft) (E : Marked Char Slot) : Draft := { D with pieces := D.pieces ++ E }

/-- The placeholder of a column in its format. -/
def format (D : Draft) (column : Text) (E : Marked Char Slot) : Marked Char Slot :=
  match D.formats column with
  | some source => replace (plain ['{', '}']) E (plain source)
  | none => E

/-- White space is dropped from letters only. -/
abbrev blank : Char ⊕ Slot → Bool := Sum.elim isWhitespace fun _ => false

/-- No connective is added at the end of the draft. -/
def blocked (R : Rbatis) (D : Draft) : Bool :=
  let E := D.pieces.rdropWhile blank
  E.isEmpty || (DynamicWrapper.stops R).any fun p => decide (plain p <:+ E)

/-- Drop the keywords `where`, `and`, `or` from the end of a text, in this order. -/
def trimTail (R : Rbatis) (E : Marked Char Slot) : Marked Char Slot :=
  trimEndMatches (plain R.template.or.leftSpace)
    (trimEndMatches (plain R.template.and.leftSpace)
      (trimEndMatches (plain R.template.where_.leftSpace) E))

/-- A raw text with its `?` marks as slots for the arguments from position `n` on. -/
def rawPieces : ℕ → ℕ → Text → Marked Char Slot
  | _, _, [] => []
  | n, 0, c :: t => .inl c :: rawPieces n 0 t
  | n, k + 1, c :: t =>
    if c = '?' then .inr ⟨n, true⟩ :: rawPieces (n + 1) k t else .inl c :: rawPieces n (k + 1) t

end Draft

/-- Run an edit on a draft. -/
def Edit.draft (R : Rbatis) : Edit → Draft → Draft
  | .connect k, D => if D.blocked R then D else D.write (plain k)
  | .write t, D => D.write (plain t)
  | .bind c v, D =>
    { D.write (D.format c [.inr ⟨D.args.length, false⟩]) with args := D.args ++ [v] }
  | .trimEnd, D => { D with pieces := D.pieces.rdropWhile Draft.blank }
  | .trim, D => { D with pieces := (D.pieces.dropWhile Draft.blank).rdropWhile Draft.blank }
  | .trimTail, D => { D with pieces := Draft.trimTail R D.pieces }
  | .squeeze, D => { D with pieces := replace (plain [' ', ' ']) (plain [' ']) D.pieces }
  | .raw t vs, D =>
    { D.write (Draft.rawPieces D.args.length vs.length t) with args := D.args ++ vs }
  | .setFormats f, D => { D with formats := f }

/-- Run edits on a draft in order. -/
def Edit.draftAll (R : Rbatis) (es : List Edit) (D : Draft) : Draft :=
  es.foldl (fun D e => e.draft R D) D

/-- The wrapper `w` is the draft `D`, written for driver `d`. -/
structure Refines (R : Rbatis) (d : DriverType) (D : Draft) (w : DynamicWrapper) : Prop where
  driver : w.driverType = d
  sql : w.sql = render (Slot.text R d) D.pieces
  args : w.args = D.args
  formats : w.formats = D.formats

/-! ## The texts of slots -/

section SlotText

theorem toNat_of_isDigit {c : Char} (h : c.isDigit = true) : 48 ≤ c.toNat ∧ c.toNat ≤ 57 := by
  simp only [Char.isDigit, Bool.and_eq_true, decide_eq_true_eq, ge_iff_le, UInt32.le_iff_toNat_le] at h
  exact h

theorem toNat_of_isAlpha {c : Char} (h : c.isAlpha = true) : 65 ≤ c.toNat := by
  simp only [Char.isAlpha, Char.isUpper, Char.isLower, Bool.or_eq_true, Bool.and_eq_true,
    decide_eq_true_eq, ge_iff_le, UInt32.le_iff_toNat_le] at h
  rcases h with ⟨h, -⟩ | ⟨h, -⟩
  · exact h
  · exact le_trans (by decide) h

/-- The letters a slot text ends with. -/
def slotLast (c : Char) : Prop := c = '?' ∨ c.isDigit = true

instance : DecidablePred slotLast := fun c => inferInstanceAs (Decidable (c = '?' ∨ c.isDigit = true))

theorem slotLast_toNat {c : Char} (h : slotLast c) : 48 ≤ c.toNat ∧ c.toNat ≤ 63 := by
  rcases h with rfl | h
  · decide
  · have := toNat_of_isDigit h
    omega

theorem slotLast_not_whitespace {c : Char} (h : slotLast c) : isWhitespace c = false := by
  have := slotLast_toNat h
  exact isWhitespace_eq_false (by omega) (by omega)

theorem slotLast_not_wordChar {c : Char} (h : slotLast c) : Keyword.wordChar c = false := by
  have hc := slotLast_toNat h
  have hs : c ≠ ' ' := by rintro rfl; revert hc; decide
  have halpha : c.isAlpha = false := by
    rw [← Bool.not_eq_true]
    intro ha
    have := toNat_of_isAlpha ha
    omega
  simp [Keyword.wordChar, halpha, hs]

variable {R : Rbatis} (hR : R.Numbered) {d : DriverType} (hd : d ≠ .none)

include hR hd in
theorem Slot.text_cases (s : Slot) : s.text R d = ['?'] ∨
    s.text R d = '$' :: decimal (s.index + 1) ∨ s.text R d = '@' :: 'p' :: decimal (s.index + 1) := by
  unfold Slot.text
  split_ifs
  · exact Or.inl rfl
  · cases d with
    | none => exact absurd rfl hd
    | mysql => exact Or.inl (hR.mysql _)
    | postgres => exact Or.inr (Or.inl (hR.postgres _))
    | sqlite => exact Or.inl (hR.sqlite _)
    | mssql => exact Or.inr (Or.inr (hR.mssql _))

theorem exists_last_digit (n : ℕ) : ∃ r c, decimal n = r ++ [c] ∧ slotLast c := by
  refine ⟨_, _, (List.dropLast_append_getLast (decimal_ne_nil n)).symm, Or.inr ?_⟩
  exact isDigit_of_mem_decimal (List.getLast_mem _)

include hR hd in
theorem Slot.text_last (s : Slot) : ∃ r c, s.text R d = r ++ [c] ∧ slotLast c := by
  obtain ⟨r, c, hr, hc⟩ := exists_last_digit (s.index + 1)
  rcases Slot.text_cases hR hd s with h | h | h
  · exact ⟨[], '?', h, Or.inl rfl⟩
  · exact ⟨'$' :: r, c, by rw [h, hr]; rfl, hc⟩
  · exact ⟨'@' :: 'p' :: r, c, by rw [h, hr]; rfl, hc⟩

include hR hd in
theorem Slot.text_head (s : Slot) : ∃ c r, s.text R d = c :: r ∧ c ∈ ['?', '$', '@'] := by
  rcases Slot.text_cases hR hd s with h | h | h
  · exact ⟨_, _, h, by simp⟩
  · exact ⟨_, _, h, by simp⟩
  · exact ⟨_, _, h, by simp⟩

include hR hd in
theorem Slot.text_ne_nil (s : Slot) : s.text R d ≠ [] := by
  obtain ⟨c, r, h, -⟩ := Slot.text_head hR hd s
  exact h ▸ List.cons_ne_nil _ _

include hR hd in
theorem Slot.text_apart {p : Text} (hp : ∀ c ∈ p, c ∉ ['?', '$', '@', 'p'] ∧ c.isDigit = false) :
    Apart (Slot.text R d) p := by
  refine fun s => ⟨Slot.text_ne_nil hR hd s, fun c hc hcp => ?_⟩
  obtain ⟨h1, h2⟩ := hp c hcp
  have hdig : c ∉ decimal (s.index + 1) := fun h => by
    rw [isDigit_of_mem_decimal h] at h2
    cases h2
  rcases Slot.text_cases hR hd s with h | h | h <;> rw [h] at hc <;> simp_all

include hR hd in
theorem Slot.text_lastApart {p : Text} (hp : ∀ c ∈ p, ¬ slotLast c) :
    LastApart (Slot.text R d) p := fun s => by
  obtain ⟨r, c, h, hc⟩ := Slot.text_last hR hd s
  exact ⟨r, c, h, fun hcp => hp c hcp hc⟩

end SlotText

/-! ## The refinement -/

section Refinement

theorem Template.Plain.leftSpace {T : Template} (hT : T.Plain) {k : Keyword} (hk : k ∈ T.keywords) :
    k.leftSpace ≠ [] ∧ ∀ c ∈ k.leftSpace, Keyword.wordChar c = true :=
  hT k hk k.leftSpace (by simp [Keyword.texts])

theorem isEmpty_render {α ι : Type} {f : ι → List α} (hf : ∀ i, f i ≠ []) (E : Marked α ι) :
    (render f E).isEmpty = E.isEmpty := by
  rcases E with _ | ⟨c | i, E⟩
  · rfl
  · rfl
  · simp [hf i]

theorem render_rawPieces (R : Rbatis) (d : DriverType) (n k : ℕ) (t : Text) :
    render (Slot.text R d) (Draft.rawPieces n k t) = t := by
  induction t generalizing n k with
  | nil => cases k <;> rfl
  | cons c t ih =>
    rcases k with _ | k
    · rw [Draft.rawPieces, render_inl_cons, ih]
    · rw [Draft.rawPieces]
      split_ifs with hc
      · rw [render_inr_cons, ih, hc]
        rfl
      · rw [render_inl_cons, ih]

variable {R : Rbatis} (hR : R.Numbered) (hT : R.template.Plain) {d : DriverType} (hd : d ≠ .none)
  {D : Draft} {w : DynamicWrapper}

theorem Refines.new (R : Rbatis) (d : DriverType) : Refines R d Draft.new (DynamicWrapper.new d) :=
  ⟨rfl, rfl, rfl, rfl⟩

theorem Refines.pushSql (h : Refines R d D w) (t : Text) :
    Refines R d (D.write (plain t)) (w.pushSql t) where
  driver := h.driver
  sql := by rw [DynamicWrapper.pushSql, h.sql, Draft.write, render_append, render_plain]
  args := h.args
  formats := h.formats

/-- Only the statement is edited. -/
theorem Refines.edit (h : Refines R d D w) {E : Marked Char Slot} {s : Text}
    (hs : s = render (Slot.text R d) E) : Refines R d { D with pieces := E } { w with sql := s } :=
  ⟨h.driver, hs, h.args, h.formats⟩

include hR hT hd in
theorem keyword_lastApart {k : Keyword} (hk : k ∈ R.template.keywords) :
    LastApart (Slot.text R d) k.leftSpace :=
  Slot.text_lastApart hR hd fun c hc hl => by
    have := slotLast_not_wordChar hl
    rw [(hT.leftSpace hk).2 c hc] at this
    cases this

include hR hT hd in
theorem stops_lastApart {p : Text} (hp : p ∈ DynamicWrapper.stops R) :
    LastApart (Slot.text R d) p := by
  simp only [DynamicWrapper.stops, List.mem_cons, List.not_mem_nil, or_false] at hp
  rcases hp with rfl | rfl | rfl | hp
  · exact keyword_lastApart hR hT hd (by simp [Template.keywords])
  · exact keyword_lastApart hR hT hd (by simp [Template.keywords])
  · exact keyword_lastApart hR hT hd (by simp [Template.keywords])
  · refine Slot.text_lastApart hR hd fun c hc hl => ?_
    rcases hp with rfl | rfl | rfl | rfl | rfl | rfl | rfl | rfl | rfl | rfl | rfl | rfl | rfl <;>
    · rw [List.mem_singleton.mp hc] at hl
      revert hl
      decide

include hR hd in
theorem trimEnd_render (E : Marked Char Slot) :
    ChimesUtils.trimEnd (render (Slot.text R d) E) =
      render (Slot.text R d) (E.rdropWhile Draft.blank) :=
  rdropWhile_render (fun s => by
    obtain ⟨r, c, h, hc⟩ := Slot.text_last hR hd s
    exact ⟨r, c, h, slotLast_not_whitespace hc⟩) E

include hR hd in
theorem trim_render (E : Marked Char Slot) :
    ChimesUtils.trim (render (Slot.text R d) E) =
      render (Slot.text R d) ((E.dropWhile Draft.blank).rdropWhile Draft.blank) := by
  rw [← trimEnd_render hR hd, ChimesUtils.trim, ChimesUtils.trimEnd, dropWhile_render]
  intro s
  obtain ⟨c, r, h, hc⟩ := Slot.text_head hR hd s
  refine ⟨c, r, h, ?_⟩
  simp only [List.mem_cons, List.not_mem_nil, or_false] at hc
  rcases hc with rfl | rfl | rfl <;> decide

include hR hT hd in
theorem trimTail_render (E : Marked Char Slot) :
    DynamicWrapper.trimTail R (render (Slot.text R d) E) =
      render (Slot.text R d) (Draft.trimTail R E) := by
  have h : ∀ k ∈ R.template.keywords, ∀ E : Marked Char Slot,
      trimEndMatches k.leftSpace (render (Slot.text R d) E) =
        render (Slot.text R d) (trimEndMatches (plain k.leftSpace) E) := fun k hk =>
    trimEndMatches_render (hT.leftSpace hk).1 (keyword_lastApart hR hT hd hk)
  rw [DynamicWrapper.trimTail, h _ (by simp [Template.keywords]), h _ (by simp [Template.keywords]),
    h _ (by simp [Template.keywords]), Draft.trimTail]

include hR hT hd in
theorem Refines.notAllowAddAndOnEnd (h : Refines R d D w) :
    w.notAllowAddAndOnEnd R = D.blocked R := by
  rw [DynamicWrapper.notAllowAddAndOnEnd, h.sql, trimEnd_render hR hd, Draft.blocked,
    isEmpty_render (Slot.text_ne_nil hR hd)]
  congr 1
  rw [Bool.eq_iff_iff, List.any_eq_true, List.any_eq_true]
  refine exists_congr fun p => and_congr_right fun hp => ?_
  rw [endsWith, decide_eq_true_iff, decide_eq_true_iff, suffix_render (stops_lastApart hR hT hd hp)]

include hR hd in
theorem Refines.convertColumn (h : Refines R d D w) (column : Text) :
    w.convertColumn R column =
      render (Slot.text R d) (D.format column [.inr ⟨D.args.length, false⟩]) := by
  have hslot : R.stmtConvert w.driverType w.args.length =
      render (Slot.text R d) [.inr ⟨D.args.length, false⟩] := by
    rw [h.driver, h.args, render_inr_cons, render_nil, List.append_nil]
    rfl
  rw [DynamicWrapper.convertColumn, DynamicWrapper.doFormatColumn, hslot, h.formats, Draft.format]
  cases D.formats column with
  | none => rfl
  | some source =>
    have := replace_render (by simp) (Slot.text_apart hR hd (p := ['{', '}']) (by simp))
      [.inr ⟨D.args.length, false⟩] (plain source)
    rwa [render_plain] at this

include hR hT hd in
/-- **Every edit of the wrapper is the edit of the draft.** -/
theorem Refines.apply (h : Refines R d D w) (e : Edit) :
    Refines R d (e.draft R D) (e.apply R w) := by
  cases e with
  | connect k =>
    rw [Edit.draft, Edit.apply, DynamicWrapper.connect, h.notAllowAddAndOnEnd hR hT hd]
    split_ifs
    · exact h
    · exact h.pushSql k
  | write t => exact h.pushSql t
  | bind c v =>
    refine ⟨h.driver, ?_, ?_, h.formats⟩
    · rw [Edit.apply, DynamicWrapper.bindArg, DynamicWrapper.pushArg, DynamicWrapper.pushSql,
        h.sql, h.convertColumn hR hd, Edit.draft, Draft.write, render_append]
    · rw [Edit.apply, DynamicWrapper.bindArg, DynamicWrapper.pushArg, DynamicWrapper.pushSql,
        h.args, Edit.draft]
  | trimEnd => exact h.edit (by rw [h.sql, trimEnd_render hR hd])
  | trim => exact h.edit (by rw [h.sql, trim_render hR hd])
  | trimTail => exact h.edit (by rw [h.sql, trimTail_render hR hT hd])
  | squeeze =>
    refine h.edit ?_
    have := replace_render (by simp) (Slot.text_apart hR hd (p := [' ', ' ']) (by simp))
      (plain [' ']) D.pieces
    rwa [render_plain, ← h.sql] at this
  | raw t vs =>
    have hargs : ∀ (vs : List Bson) (u : DynamicWrapper), vs.foldl DynamicWrapper.pushArg u =
        { u with args := u.args ++ vs } := by
      intro vs
      induction vs with
      | nil => intro u; simp
      | cons v vs ih => intro u; rw [List.foldl_cons, ih]; simp [DynamicWrapper.pushArg]
    rw [Edit.apply, Edit.draft, hargs]
    refine ⟨h.driver, ?_, ?_, h.formats⟩
    · rw [Draft.write, render_append, render_rawPieces, ← h.sql]
      rfl
    · rw [← h.args]
      rfl
  | setFormats f => exact ⟨h.driver, h.sql, h.args, rfl⟩

include hR hT hd in
theorem Refines.applyAll (h : Refines R d D w) (es : List Edit) :
    Refines R d (Edit.draftAll R es D) (Edit.applyAll R es w) := by
  induction es generalizing D w with
  | nil => exact h
  | cons e es ih => exact ih (h.apply hR hT hd e)

end Refinement

end ChimesUtils
