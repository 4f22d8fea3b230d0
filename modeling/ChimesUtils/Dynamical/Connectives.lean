import ChimesUtils.Dynamical.Draft
import ChimesUtils.Dynamical.Entries

/-!
# The connectives between conditions

Every condition method calls `and`, and `and` and `or` add nothing after a connective. So of the calls
between two conditions the first one of `and`, `or` decides the connective, and without such a call it
is `and`. `Joined` is the grammar of a chain in this sense. An `all_eq` without entries writes no
condition, but it has called `and` before it sees that.

* `Call.conditionText`, `pieces`: the conditions of a chain, each with the connective before it;
* `run_started`: the text of a chain is its pieces, where an `all_eq` without entries counts as `and`;
* `joined_iff`: the text is in the grammar just when no such `all_eq` comes before an `or` that
  decides.
-/

namespace ChimesUtils

open Lib

/-! ## The grammar -/

/-- A connective. -/
inductive Connective where
  | and
  | or
  deriving DecidableEq

def Connective.text : Connective → Text
  | .and => " and ".toList
  | .or => " or ".toList

/-- The text of a connective that may be missing. -/
def gapText (g : Option Connective) : Text := (g.map Connective.text).getD []

namespace Call

/-- Condition calls, `and` and `or`. -/
def joins : Call → Bool
  | .having _ | .orderBy _ _ | .orderBys _ | .groupBy _ | .limit _ | .trimSpace | .setFormats _ => false
  | _ => true

/-- The call writes a condition. -/
def writes : Call → Bool
  | .eq _ _ | .ne _ _ | .gt _ _ | .ge _ _ | .lt _ _ | .le _ _ | .between _ _ _ | .notBetween _ _ _
  | .like _ _ | .likeLeft _ _ | .likeRight _ _ | .notLike _ _ | .isNull _ | .isNotNull _ => true
  | .inArray _ vs | .in_ _ vs | .notIn _ vs => !vs.isEmpty
  | .allEq (.document map) => !map.isEmpty
  | _ => false

/-- The number of arguments of a condition. -/
def argCount : Call → ℕ
  | .eq _ _ | .ne _ _ | .gt _ _ | .ge _ _ | .lt _ _ | .le _ _
  | .like _ _ | .likeLeft _ _ | .likeRight _ _ | .notLike _ _ => 1
  | .between _ _ _ | .notBetween _ _ _ => 2
  | .inArray _ vs | .in_ _ vs | .notIn _ vs => vs.length
  | .allEq (.document map) => map.length
  | _ => 0

/-- The placeholders of a membership list, from argument index `n` on. -/
def membership (R : Rbatis) (d : DriverType) (n : ℕ) (vs : List Bson) : Text :=
  List.intercalate [','] ((vs.zipIdx n).map fun v => [' '] ++ R.stmtConvert d v.2 ++ [' '])

/-- The equations of a document, from argument index `n` on. -/
def equations (R : Rbatis) (d : DriverType) (n : ℕ) (map : List (Text × Bson)) : Text :=
  List.intercalate " and ".toList
    ((map.zipIdx n).map fun e => e.1.1 ++ " = ".toList ++ R.stmtConvert d e.2)

/-- The condition that a call writes when its first argument has index `n`. -/
def conditionText (R : Rbatis) (d : DriverType) (n : ℕ) : Call → Text
  | .eq c _ => c ++ " = ".toList ++ R.stmtConvert d n
  | .ne c _ => c ++ " <> ".toList ++ R.stmtConvert d n
  | .gt c _ => c ++ " > ".toList ++ R.stmtConvert d n
  | .ge c _ => c ++ " >= ".toList ++ R.stmtConvert d n
  | .lt c _ => c ++ " < ".toList ++ R.stmtConvert d n
  | .le c _ => c ++ " <= ".toList ++ R.stmtConvert d n
  | .between c _ _ =>
    c ++ " between ".toList ++ R.stmtConvert d n ++ (" and ".toList ++ R.stmtConvert d (n + 1))
  | .notBetween c _ _ =>
    c ++ " not between ".toList ++ R.stmtConvert d n ++ (" and ".toList ++ R.stmtConvert d (n + 1))
  | .like c _ | .likeLeft c _ | .likeRight c _ => c ++ " like ".toList ++ R.stmtConvert d n
  | .notLike c _ => c ++ " not like ".toList ++ R.stmtConvert d n
  | .isNull c => c ++ " is".toList ++ R.template.null.leftSpace
  | .isNotNull c => c ++ " is not".toList ++ R.template.null.leftSpace
  | .inArray c vs | .in_ c vs => c ++ " in (".toList ++ membership R d n vs ++ [')']
  | .notIn c vs => c ++ " not in (".toList ++ membership R d n vs ++ [')']
  | .allEq (.document map) => ['('] ++ equations R d n map ++ [')']
  | _ => []

/-- The connective that a call asks for. -/
def word : Call → Option Connective
  | .and => some .and
  | .or => some .or
  | _ => none

/-- The connective that a call without a condition adds where it can. -/
def effect : Call → Option Connective
  | .allEq _ => some .and
  | c => c.word

end Call

/-- The conditions of a chain, each with the connective before it: the first one that the calls since
the last condition give, where `g` is the one given so far. -/
def pieces (R : Rbatis) (d : DriverType) (word : Call → Option Connective) :
    ℕ → Option Connective → List Call → List (Connective × Text)
  | _, _, [] => []
  | n, g, c :: calls =>
    if c.writes then
      (g.getD .and, c.conditionText R d n) :: pieces R d word (n + c.argCount) none calls
    else pieces R d word n (g.or (word c)) calls

/-- Connectives and conditions one after the other. -/
def piecesText (ps : List (Connective × Text)) : Text := ps.flatMap fun p => p.1.text ++ p.2

/-- The text of a chain: the first condition comes without a connective. -/
def joinText : List (Connective × Text) → Text
  | [] => []
  | p :: ps => p.2 ++ piecesText ps

/-- The statement is the conditions of the calls, with the connectives that `and` and `or` ask for, and
possibly a connective after the last condition. -/
def Joined (R : Rbatis) (d : DriverType) (calls : List Call) (sql : Text) : Prop :=
  ∃ tail : Option Connective, (pieces R d Call.word 0 none calls = [] → tail = none) ∧
    sql = joinText (pieces R d Call.word 0 none calls) ++ gapText tail

/-! ## Where an empty `all_eq` decides -/

/-- Between two conditions an `all_eq` comes before the first connective call, which is `or`. -/
def Swaps (gap : List Call) : Prop :=
  gap.findSome? Call.word = some .or ∧ gap.findSome? Call.effect = some .and

instance (gap : List Call) : Decidable (Swaps gap) := inferInstanceAs
  (Decidable (gap.findSome? Call.word = some .or ∧ gap.findSome? Call.effect = some .and))

/-- No condition after the first one comes after such calls; `gap` are the calls since the last
condition. -/
def NoSwap : Option (List Call) → List Call → Prop
  | _, [] => True
  | gap, c :: calls =>
    if c.writes then (∀ g ∈ gap, ¬ Swaps g) ∧ NoSwap (some []) calls
    else NoSwap (gap.map (· ++ [c])) calls

instance decidableNoSwap : (gap : Option (List Call)) → (calls : List Call) →
    Decidable (NoSwap gap calls)
  | _, [] => isTrue trivial
  | gap, c :: calls =>
    have := decidableNoSwap (some []) calls
    have := decidableNoSwap (gap.map (· ++ [c])) calls
    inferInstanceAs (Decidable (if c.writes = true then (∀ g ∈ gap, ¬ Swaps g) ∧ NoSwap (some []) calls
      else NoSwap (gap.map (· ++ [c])) calls))

/-! ## What the calls write -/

/-- The wrapper writes for the driver `d` without formats; its text is `s`, and it has `n` arguments. -/
structure Holds (d : DriverType) (s : Text) (n : ℕ) (w : DynamicWrapper) : Prop where
  driver : w.driverType = d
  formats : w.formats = fun _ => none
  sql : w.sql = s
  args : w.args.length = n

theorem DynamicWrapper.blocked_of_connective {R : Rbatis} (hR : R.template.Standard) (k : Connective)
    {s : Text} {w : DynamicWrapper} (h : w.sql = s ++ k.text) : w.notAllowAddAndOnEnd R = true := by
  cases k with
  | and =>
    refine DynamicWrapper.blocked_of_stop_space (p := " an".toList) (c := 'd') ?_ (by decide) h
    rw [DynamicWrapper.stops, hR.eq_words]
    simp [Template.words, Keyword.spaced]
  | or =>
    refine DynamicWrapper.blocked_of_stop_space (p := " o".toList) (c := 'r') ?_ (by decide) h
    rw [DynamicWrapper.stops, hR.eq_words]
    simp [Template.words, Keyword.spaced]

namespace Holds

variable {R : Rbatis} {d : DriverType} {s : Text} {n : ℕ} {w : DynamicWrapper}

theorem new (d : DriverType) : Holds d [] 0 (.new d) := ⟨rfl, rfl, rfl, rfl⟩

theorem noGap (h : Holds d s n w) : Holds d (s ++ gapText none) n w := by
  have hs : s ++ gapText none = s := List.append_nil s
  rwa [hs]

theorem pushSql (h : Holds d s n w) (t : Text) : Holds d (s ++ t) n (w.pushSql t) :=
  ⟨h.driver, h.formats, by rw [DynamicWrapper.pushSql, h.sql], h.args⟩

theorem bindArg (h : Holds d s n w) (column : Text) (v : Bson) :
    Holds d (s ++ R.stmtConvert d n) (n + 1) (w.bindArg R column v) where
  driver := h.driver
  formats := h.formats
  sql := by
    simp only [DynamicWrapper.bindArg, DynamicWrapper.pushArg, DynamicWrapper.pushSql,
      DynamicWrapper.convertColumn, DynamicWrapper.doFormatColumn, h.formats, h.sql, h.driver, h.args]
  args := by rw [DynamicWrapper.bindArg, DynamicWrapper.pushArg, List.length_append,
    DynamicWrapper.pushSql, h.args, List.length_singleton]

theorem inTail (h : Holds d s n w) (column : Text) (vs : List Bson) :
    Holds d
      (s ++ ((vs.zipIdx n).map fun v => [' '] ++ R.stmtConvert d v.2 ++ [' ']).flatMap ([','] ++ ·))
      (n + vs.length) (Edit.applyAll R (Call.inTailEdits column vs) w) := by
  induction vs generalizing s n w with
  | nil => exact (List.append_nil s).symm ▸ h
  | cons v vs ih =>
    have hfirst := (((h.pushSql [',']).pushSql [' ']).bindArg (R := R) column v).pushSql [' ']
    have hrest := ih hfirst
    rw [Call.inTailEdits, List.flatMap_cons, Edit.applyAll_append, List.zipIdx_cons, List.map_cons,
      List.flatMap_cons, List.length_cons]
    simp only [List.append_assoc, Nat.add_assoc, Nat.add_comm 1] at hrest ⊢
    exact hrest

theorem membership_cons (R : Rbatis) (d : DriverType) (n : ℕ) (v : Bson) (vs : List Bson) :
    Call.membership R d n (v :: vs) = [' '] ++ R.stmtConvert d n ++ [' '] ++
      ((vs.zipIdx (n + 1)).map fun v => [' '] ++ R.stmtConvert d v.2 ++ [' ']).flatMap ([','] ++ ·) := by
  have hcons : ∀ (t : Text) (ts : List Text),
      List.intercalate [','] (t :: ts) = t ++ ts.flatMap ([','] ++ ·) := by
    intro t ts
    induction ts generalizing t with
    | nil => rw [List.intercalate_singleton, List.flatMap_nil, List.append_nil]
    | cons t' ts ih =>
      rw [List.intercalate_cons_cons, ih, List.flatMap_cons]
      simp only [List.append_assoc]
  exact hcons _ _

theorem inWith (h : Holds d s n (w.and R)) (op column : Text) {vs : List Bson} (hvs : vs ≠ []) :
    Holds d (s ++ (column ++ op ++ Call.membership R d n vs ++ [')'])) (n + vs.length)
      (w.inWith R op column vs) := by
  obtain ⟨v, vs, rfl⟩ := List.exists_cons_of_ne_nil hvs
  have hfirst := (((h.pushSql (column ++ op)).pushSql [' ']).bindArg (R := R) column v).pushSql [' ']
  have hall := (hfirst.inTail (R := R) column vs).pushSql [')']
  rw [Call.inWith_eq_edits, Call.inEdits, Edit.applyAll_append, Edit.applyAll_append, membership_cons,
    List.length_cons]
  simp only [List.append_assoc, Nat.add_assoc, Nat.add_comm 1] at hall ⊢
  exact hall

/-! ### Connectives -/

theorem connect_of_blocked (h : Holds d s n w) (hb : w.notAllowAddAndOnEnd R = true) (k : Text) :
    Holds d s n (w.connect R k) := by
  rwa [DynamicWrapper.connect, if_pos hb]

theorem connect_of_free (h : Holds d s n w) (hb : w.notAllowAddAndOnEnd R = false) (k : Text) :
    Holds d (s ++ k) n (w.connect R k) := by
  rw [DynamicWrapper.connect, hb, if_neg Bool.false_ne_true]
  exact h.pushSql k

theorem blocked_connective (hR : R.template.Standard) (k : Connective)
    (h : Holds d (s ++ k.text) n w) : w.notAllowAddAndOnEnd R = true :=
  DynamicWrapper.blocked_of_connective hR k h.sql

theorem equalities_eq (h : Holds d s n w) (map : List (Text × Bson)) :
    List.intercalate " and ".toList (w.equalities R map) = Call.equations R d n map := by
  have hzip : map.zipIdx n = (map.zipIdx 0).map (Prod.map id (· + n)) := by
    rw [List.map_snd_add_zipIdx_eq_zipIdx, Nat.add_zero]
  unfold DynamicWrapper.equalities Call.equations
  rw [List.mapIdx_eq_zipIdx_map, hzip, List.map_map]
  congr 1
  refine List.map_congr_left fun e _ => ?_
  simp [DynamicWrapper.equality, DynamicWrapper.doFormatColumn, h.formats, h.driver, h.args,
    Nat.add_comm]

theorem compare (h : Holds d s n (w.and R)) {op op' : Text} (hop : op = op') (column : Text) (v : Bson) :
    Holds d (s ++ (column ++ op' ++ R.stmtConvert d n)) (n + 1)
      (((w.and R).pushSql (column ++ op)).bindArg R column v) := by
  rw [← hop, ← List.append_assoc]
  exact (h.pushSql (column ++ op)).bindArg column v

theorem betweenWith (hR : R.template.Standard) (h : Holds d s n (w.and R)) {op op' : Text}
    (hop : op = op') (column : Text) (min max : Bson) :
    Holds d
      (s ++ (column ++ op' ++ R.stmtConvert d n ++ (" and ".toList ++ R.stmtConvert d (n + 1))))
      (n + 2) (w.betweenWith R op column min max) := by
  have hmax := ((h.compare hop column min).pushSql " and ".toList).bindArg (R := R) column max
  unfold DynamicWrapper.betweenWith
  rw [hR.eq_words]
  simp only [List.append_assoc] at hmax ⊢
  exact hmax

theorem allEq (hR : R.template.Standard) (h : Holds d s n (w.and R)) {map : List (Text × Bson)}
    (hmap : map ≠ []) :
    Holds d (s ++ (['('] ++ Call.equations R d n map ++ [')'])) (n + map.length)
      (w.allEq R (.document map)) := by
  have hargs : w.args.length = n := by
    rw [← DynamicWrapper.and_args (R := R)]
    exact h.args
  rw [DynamicWrapper.allEq_document (by rw [hR.eq_words]; rfl) w hmap, ← h.equalities_eq (R := R), DynamicWrapper.equalities,
    DynamicWrapper.equality_and]
  exact ⟨h.driver, h.formats, congrArg (· ++ _) h.sql, by simp [DynamicWrapper.append, hargs]⟩

/-- **A condition call appends its condition** after the connective. -/
theorem condition (hR : R.template.Standard) {c : Call} (hc : c.writes = true)
    (h : Holds d s n (w.and R)) :
    Holds d (s ++ c.conditionText R d n) (n + c.argCount) (c.apply R w) := by
  have hin : ∀ {op op' : Text}, op = op' → ∀ (column : Text) (vs : List Bson),
      (!vs.isEmpty) = true → Holds d (s ++ (column ++ op' ++ Call.membership R d n vs ++ [')']))
        (n + vs.length) (w.inWith R op column vs) := by
    rintro op _ rfl column vs hvs
    exact h.inWith op column (by simpa using hvs)
  cases c with
  | eq column v | ne column v | gt column v | ge column v | lt column v | le column v =>
    exact h.compare rfl column v
  | between column min max | notBetween column min max =>
    exact h.betweenWith hR (by rw [hR.eq_words]; rfl) column min max
  | like column v | likeLeft column v | likeRight column v | notLike column v =>
    exact h.compare (by rw [hR.eq_words]; rfl) column _
  | isNull column =>
    have hnull := ((h.pushSql column).pushSql R.template.is.leftSpace).pushSql R.template.null.leftSpace
    rw [List.append_assoc s] at hnull
    show Holds d (s ++ (column ++ " is".toList ++ R.template.null.leftSpace)) n (w.isNull R column)
    rw [show " is".toList = R.template.is.leftSpace by rw [hR.eq_words]; rfl, ← List.append_assoc]
    exact hnull
  | isNotNull column =>
    have hnull := (((h.pushSql column).pushSql R.template.is.leftSpace).pushSql
      R.template.not.leftSpace).pushSql R.template.null.leftSpace
    rw [List.append_assoc s, List.append_assoc s, List.append_assoc column] at hnull
    show Holds d (s ++ (column ++ " is not".toList ++ R.template.null.leftSpace)) n (w.isNotNull R column)
    rw [show " is not".toList = R.template.is.leftSpace ++ R.template.not.leftSpace by
      rw [hR.eq_words]; rfl, ← List.append_assoc]
    exact hnull
  | inArray column vs | in_ column vs | notIn column vs =>
    exact hin (by rw [hR.eq_words]; rfl) column vs hc
  | allEq v =>
    cases v with
    | document map =>
      exact h.allEq hR (by simpa [Call.writes] using hc)
    | _ => cases hc
  | _ => cases hc

end Holds

/-! ### Where a connective is added -/

/-- A text that ends as conditions do: with a placeholder, a bracket, or the word `null`. -/
def Closes (s : Text) : Prop := ∃ r c, s = r ++ [c] ∧ (slotLast c ∨ c = ')' ∨ c.toLower = 'l')

theorem closing_not_whitespace {c : Char} (hc : slotLast c ∨ c = ')' ∨ c.toLower = 'l') :
    isWhitespace c = false := by
  rcases hc with hc | rfl | hc
  · exact slotLast_not_whitespace hc
  · decide
  · exact isWhitespace_of_isAlpha (Template.isAlpha_of_toLower (by rw [hc]; decide))

theorem Closes.append {t : Text} (h : Closes t) (s : Text) : Closes (s ++ t) := by
  obtain ⟨r, c, rfl, hc⟩ := h
  exact ⟨s ++ r, c, (List.append_assoc ..).symm, hc⟩

section Free

variable {R : Rbatis} {d : DriverType} {s : Text} {n : ℕ} {w : DynamicWrapper}

theorem Holds.free (hR : R.template.Standard) (h : Holds d s n w) (hs : Closes s) :
    w.notAllowAddAndOnEnd R = false := by
  obtain ⟨r, c, rfl, hc⟩ := hs
  have hblank : isWhitespace c = false := closing_not_whitespace hc
  have hstops : DynamicWrapper.stops R = DynamicWrapper.stops Rbatis.standard := by
    unfold DynamicWrapper.stops
    rw [hR.eq_words]
    rfl
  have hlast : ∀ p ∈ DynamicWrapper.stops Rbatis.standard, ∀ a ∈ p,
      ¬ (slotLast a ∨ a = ')' ∨ a.toLower = 'l') := by
    simp [DynamicWrapper.stops, Rbatis.standard, Template.rbatis, Template.words, Keyword.spaced,
      slotLast]
  have hne : ∀ p ∈ DynamicWrapper.stops Rbatis.standard, p ≠ [] := by decide
  rw [DynamicWrapper.notAllowAddAndOnEnd, h.sql, trimEnd_concat _ hblank, Bool.or_eq_false_iff]
  refine ⟨by simp, List.any_eq_false.mpr fun p hp => ?_⟩
  rw [hstops] at hp
  rw [endsWith, decide_eq_true_iff]
  exact fun hsuffix => hlast p hp c (mem_of_isSuffix_concat (hne p hp) hsuffix) hc

theorem Call.closes (hR : R.template.Standard) (hN : R.Numbered) (hd : d ≠ .none) (n : ℕ) {c : Call} (hc : c.writes = true) :
    Closes (c.conditionText R d n) := by
  have hslot : ∀ n, Closes (R.stmtConvert d n) := by
    intro n
    obtain ⟨r, c, hr, hc⟩ := Slot.text_last hN hd ⟨n, false⟩
    exact ⟨r, c, hr, Or.inl hc⟩
  have hbracket : ∀ t : Text, Closes (t ++ [')']) := fun t => ⟨t, ')', rfl, Or.inr (Or.inl rfl)⟩
  have hnull : Closes R.template.null.leftSpace := by
    obtain ⟨r, c, hr, hc⟩ := hR.null_concat
    exact ⟨r, c, hr, Or.inr (Or.inr hc)⟩
  cases c with
  | between | notBetween => exact ((hslot (n + 1)).append _).append _
  | isNull | isNotNull => exact hnull.append _
  | inArray | in_ | notIn => exact hbracket _
  | allEq v =>
    cases v with
    | document map => exact hbracket _
    | _ => cases hc
  | and | or | having | orderBy | orderBys | groupBy | limit | trimSpace | setFormats => cases hc
  | _ => exact (hslot n).append _

theorem Holds.blocked_nil (h : Holds d [] n w) : w.notAllowAddAndOnEnd R = true := by
  rw [DynamicWrapper.notAllowAddAndOnEnd, h.sql]
  rfl

/-- After a condition, the first connective is the one that stays. -/
theorem Holds.connect (hR : R.template.Standard) {g : Option Connective}
    (h : Holds d (s ++ gapText g) n w) (hs : Closes s) (k : Connective) :
    Holds d (s ++ gapText (g.or (some k))) n (w.connect R k.text) := by
  cases g with
  | none =>
    have hend : Holds d s n w := by
      have h' := h
      rwa [gapText, Option.map_none, Option.getD_none, List.append_nil] at h'
    exact hend.connect_of_free (hend.free hR hs) k.text
  | some k' => exact h.connect_of_blocked (h.blocked_connective hR k') k.text

theorem Call.apply_of_not_writes (hR : R.template.Standard) {c : Call} (hjoins : c.joins = true)
    (hc : c.writes = false) (w : DynamicWrapper) :
    c.apply R w = match c.effect with
      | none => w
      | some k => w.connect R k.text := by
  have hand : R.template.and.leftRightSpace = Connective.and.text := by
    rw [hR.eq_words]
    rfl
  have hor : R.template.or.leftRightSpace = Connective.or.text := by
    rw [hR.eq_words]
    rfl
  have hin : ∀ (op column : Text) (vs : List Bson), (!vs.isEmpty) = false →
      w.inWith R op column vs = w := by
    intro op column vs hvs
    exact if_pos (by simpa using hvs)
  cases c with
  | inArray column vs | in_ column vs | notIn column vs => exact hin _ column vs hc
  | and => exact congrArg (fun k => w.connect R k) hand
  | or => exact congrArg (fun k => w.connect R k) hor
  | allEq v =>
    have hempty : w.allEq R v = w.and R := by
      cases v with
      | document map => exact if_pos (by simpa [Call.writes] using hc)
      | _ => rfl
    exact hempty.trans (congrArg (fun k => w.connect R k) hand)
  | having | orderBy | orderBys | groupBy | limit | trimSpace | setFormats => cases hjoins
  | _ => cases hc

end Free

/-! ## The text of a chain -/

section Runs

variable {R : Rbatis} (hR : R.template.Standard) (hN : R.Numbered) {d : DriverType} (hd : d ≠ .none)

include hR hN hd in
/-- **After a condition.** The calls add their pieces to a text that ends with a condition and perhaps a
connective. -/
theorem run_started {calls : List Call} (hcalls : ∀ c ∈ calls, c.joins = true) {s : Text}
    {g : Option Connective} {n : ℕ} {w : DynamicWrapper} (h : Holds d (s ++ gapText g) n w)
    (hs : Closes s) :
    ∃ tail, (∀ k ∈ tail, k ∈ g ∨ ∃ c ∈ calls, k ∈ c.effect) ∧
      (calls.foldl (fun w c => c.apply R w) w).sql =
        s ++ piecesText (pieces R d Call.effect n g calls) ++ gapText tail := by
  induction calls generalizing s g n w with
  | nil =>
    refine ⟨g, fun k hk => Or.inl hk, ?_⟩
    rw [pieces, piecesText, List.flatMap_nil, List.append_nil]
    exact h.sql
  | cons c calls ih =>
    rw [List.forall_mem_cons] at hcalls
    rw [List.foldl_cons, pieces]
    simp only [List.exists_mem_cons_iff]
    by_cases hc : c.writes = true
    · have hand : Holds d (s ++ (g.getD .and).text) n (w.and R) := by
        have hconnect := h.connect hR hs .and
        have hg : gapText (g.or (some .and)) = (g.getD .and).text := by cases g <;> rfl
        rw [hg] at hconnect
        rw [DynamicWrapper.and, hR.eq_words]
        exact hconnect
      have hnext := hand.condition hR hc
      have hclosed : Closes (s ++ (g.getD .and).text ++ c.conditionText R d n) :=
        (Call.closes hR hN hd n hc).append _
      obtain ⟨tail, hcause, htail⟩ := ih hcalls.2 hnext.noGap hclosed
      refine ⟨tail, fun k hk => Or.inr (Or.inr ((hcause k hk).resolve_left nofun)), ?_⟩
      rw [htail, if_pos hc, piecesText, piecesText, List.flatMap_cons]
      simp only [List.append_assoc]
    · have hc' : c.writes = false := by simpa using hc
      rw [if_neg hc, Call.apply_of_not_writes hR hcalls.1 hc']
      cases heffect : c.effect with
      | none =>
        obtain ⟨tail, hcause, htail⟩ := ih hcalls.2 h hs
        rw [Option.or_none]
        exact ⟨tail, fun k hk => (hcause k hk).imp_right Or.inr, htail⟩
      | some k =>
        obtain ⟨tail, hcause, htail⟩ := ih hcalls.2 (h.connect hR hs k) hs
        refine ⟨tail, fun k' hk' => ?_, htail⟩
        have hor : k' ∈ g.or (some k) → k' ∈ g ∨ k' ∈ some k := by
          cases g with
          | none => exact Or.inr
          | some _ => exact Or.inl
        exact (hcause k' hk').elim (fun hg => (hor hg).imp_right Or.inl) fun hc => Or.inr (Or.inr hc)

include hR hN hd in
/-- **From the start.** The calls write their pieces; connective calls before the first condition write
nothing. -/
theorem run_fresh {calls : List Call} (hcalls : ∀ c ∈ calls, c.joins = true) {n : ℕ}
    {w : DynamicWrapper} (h : Holds d [] n w) (g : Option Connective) :
    ∃ tail, (pieces R d Call.effect n g calls = [] → tail = none) ∧
      (∀ k ∈ tail, ∃ c ∈ calls, k ∈ c.effect) ∧
      (calls.foldl (fun w c => c.apply R w) w).sql =
        joinText (pieces R d Call.effect n g calls) ++ gapText tail := by
  induction calls generalizing g n w with
  | nil => exact ⟨none, fun _ => rfl, nofun, h.sql⟩
  | cons c calls ih =>
    rw [List.forall_mem_cons] at hcalls
    rw [List.foldl_cons, pieces]
    simp only [List.exists_mem_cons_iff]
    by_cases hc : c.writes = true
    · have hnext := (h.connect_of_blocked h.blocked_nil R.template.and.leftRightSpace).condition hR hc
      obtain ⟨tail, hcause, htail⟩ := run_started hR hN hd hcalls.2 hnext.noGap
        (Call.closes hR hN hd n hc)
      rw [if_pos hc]
      exact ⟨tail, fun hnil => absurd hnil (List.cons_ne_nil _ _),
        fun k hk => Or.inr ((hcause k hk).resolve_left nofun), htail⟩
    · have hc' : c.writes = false := by simpa using hc
      have hnext : Holds d [] n (c.apply R w) := by
        rw [Call.apply_of_not_writes hR hcalls.1 hc']
        cases c.effect with
        | none => exact h
        | some k => exact h.connect_of_blocked h.blocked_nil k.text
      obtain ⟨tail, hnone, hcause, htail⟩ := ih hcalls.2 hnext (g.or c.effect)
      rw [if_neg hc]
      exact ⟨tail, hnone, fun k hk => Or.inr (hcause k hk), htail⟩

end Runs

/-! ## The connectives that are asked for and those that are written -/

section Compare

variable {R : Rbatis} {d : DriverType}

theorem map_snd_pieces (word word' : Call → Option Connective) (n : ℕ) (g g' : Option Connective)
    (calls : List Call) :
    (pieces R d word n g calls).map Prod.snd = (pieces R d word' n g' calls).map Prod.snd := by
  induction calls generalizing n g g' with
  | nil => rfl
  | cons c calls ih =>
    rw [pieces, pieces]
    split_ifs
    · rw [List.map_cons, List.map_cons, ih]
    · exact ih n _ _

theorem Connective.eq_of_text_append {k k' : Connective} {s t : Text}
    (h : k.text ++ s = k'.text ++ t) : k = k' := by
  cases k <;> cases k'
  · rfl
  · exact absurd (List.cons.inj (List.cons.inj h).2).1 (by decide)
  · exact absurd (List.cons.inj (List.cons.inj h).2).1 (by decide)
  · rfl

theorem eq_of_piecesText_append {ps qs : List (Connective × Text)} {s t : Text}
    (hsnd : ps.map Prod.snd = qs.map Prod.snd) (h : piecesText ps ++ s = piecesText qs ++ t) :
    ps = qs := by
  induction ps generalizing qs with
  | nil => exact (List.map_eq_nil_iff.mp hsnd.symm).symm
  | cons p ps ih =>
    obtain ⟨k, u⟩ := p
    obtain ⟨⟨k', _⟩, qs, rfl, rfl, hqs⟩ := List.map_eq_cons_iff.mp hsnd.symm
    simp only [piecesText, List.flatMap_cons, List.append_assoc] at h
    obtain rfl := Connective.eq_of_text_append h
    rw [ih hqs.symm (List.append_cancel_left (List.append_cancel_left h))]

theorem findSome_effect (gap : List Call) :
    (gap.findSome? Call.effect = some .or → gap.findSome? Call.word = some .or) ∧
      (gap.findSome? Call.effect = none → gap.findSome? Call.word = none) := by
  induction gap with
  | nil => exact ⟨id, id⟩
  | cons c gap ih =>
    rw [List.findSome?_cons, List.findSome?_cons]
    by_cases hc : ∃ v, c = .allEq v
    · obtain ⟨v, rfl⟩ := hc
      exact ⟨nofun, nofun⟩
    · have heffect : c.effect = c.word := by
        unfold Call.effect
        split
        · exact absurd ⟨_, rfl⟩ hc
        · rfl
      rw [heffect]
      cases c.word with
      | none => exact ih
      | some k => exact ⟨id, id⟩

theorem not_swaps_iff (gap : List Call) : ¬ Swaps gap ↔
    (gap.findSome? Call.word).getD .and = (gap.findSome? Call.effect).getD .and := by
  obtain ⟨hor, hnone⟩ := findSome_effect gap
  unfold Swaps
  generalize gap.findSome? Call.word = word at hor hnone ⊢
  generalize gap.findSome? Call.effect = effect at hor hnone ⊢
  rcases effect with _ | _ | _
  · rw [hnone rfl]
    simp
  · rcases word with _ | _ | _ <;> simp
  · rw [hor rfl]
    simp

theorem pieces_eq_iff (gap : List Call) (n : ℕ) (calls : List Call) :
    pieces R d Call.word n (gap.findSome? Call.word) calls =
        pieces R d Call.effect n (gap.findSome? Call.effect) calls ↔ NoSwap (some gap) calls := by
  induction calls generalizing gap n with
  | nil => exact ⟨fun _ => trivial, fun _ => rfl⟩
  | cons c calls ih =>
    rw [pieces, pieces, NoSwap]
    by_cases hc : c.writes = true
    · rw [if_pos hc, if_pos hc, if_pos hc, List.cons.injEq, Prod.mk.injEq, ← not_swaps_iff]
      have hrest := ih [] (n + c.argCount)
      rw [List.findSome?_nil, List.findSome?_nil] at hrest
      rw [hrest]
      simp
    · have hword : (gap.findSome? Call.word).or c.word = (gap ++ [c]).findSome? Call.word := by
        rw [List.findSome?_append, List.findSome?_singleton]
      have heffect : (gap.findSome? Call.effect).or c.effect = (gap ++ [c]).findSome? Call.effect := by
        rw [List.findSome?_append, List.findSome?_singleton]
      rw [if_neg hc, if_neg hc, if_neg hc, hword, heffect, ih]
      rfl

theorem tail_pieces_eq_iff (n : ℕ) (g g' : Option Connective) (calls : List Call) :
    (pieces R d Call.word n g calls).tail = (pieces R d Call.effect n g' calls).tail ↔
      NoSwap none calls := by
  induction calls generalizing n g g' with
  | nil => exact ⟨fun _ => trivial, fun _ => rfl⟩
  | cons c calls ih =>
    rw [pieces, pieces, NoSwap]
    by_cases hc : c.writes = true
    · rw [if_pos hc, if_pos hc, if_pos hc, List.tail_cons, List.tail_cons]
      have hrest := pieces_eq_iff (R := R) (d := d) [] (n + c.argCount) calls
      rw [List.findSome?_nil, List.findSome?_nil] at hrest
      rw [hrest]
      simp
    · rw [if_neg hc, if_neg hc, if_neg hc, ih]
      rfl

end Compare

/-- **The connectives of a chain.** For every driver and all chains of condition and connective calls,
from an empty wrapper: the statement is the conditions, with the connectives that the calls ask for,
just when no `all_eq` without entries comes before an `or` that decides. -/
theorem joined_iff {R : Rbatis} (hR : R.template.Standard) (hN : R.Numbered) {d : DriverType}
    (hd : d ≠ .none) {ch : Chain} (hjoins : ∀ c ∈ ch.calls, c.joins = true) :
    Joined R d ch.calls (ch.run R (.new d)).sql ↔ NoSwap none ch.calls := by
  obtain ⟨tail, htail, -, hsql⟩ := run_fresh hR hN hd hjoins (Holds.new d) none
  rw [Chain.run_eq_calls, ← tail_pieces_eq_iff (R := R) (d := d) 0 none none ch.calls]
  have hsnd := map_snd_pieces (R := R) (d := d) Call.word Call.effect 0 none none ch.calls
  rw [Joined, hsql]
  generalize pieces R d Call.word 0 none ch.calls = ps at hsnd ⊢
  generalize pieces R d Call.effect 0 none ch.calls = qs at htail hsnd ⊢
  cases ps with
  | nil =>
    have hqs : qs = [] := List.map_eq_nil_iff.mp hsnd.symm
    rw [hqs] at htail ⊢
    exact ⟨fun _ => rfl, fun _ => ⟨tail, htail, rfl⟩⟩
  | cons p ps =>
    obtain ⟨q, qs, rfl, hq, hqs⟩ := List.map_eq_cons_iff.mp hsnd.symm
    rw [List.tail_cons, List.tail_cons, joinText, joinText, hq]
    constructor
    · rintro ⟨tail', -, heq⟩
      rw [List.append_assoc, List.append_assoc] at heq
      exact (eq_of_piecesText_append hqs (List.append_cancel_left heq)).symm
    · intro heq
      exact ⟨tail, fun hnil => absurd hnil (List.cons_ne_nil _ _), by rw [heq]⟩

/-- A chain that starts with a connective call and has two of them in a row. -/
def mixedChain : Chain :=
  .call .or (.call (.eq ['a'] (.int64 1)) (.call .or (.call .and
    (.call (.inArray ['b'] [.int64 1, .int64 2]) (.call (.allEq .null)
      (.call (.allEq (.document [(['c'], .null), (['d'], .null)])) (.call .or .nil)))))))

theorem joined_mixedChain :
    (mixedChain.run Rbatis.standard (.new .postgres)).sql =
      "a = $1 or b in ( $2 , $3 ) and (c = $4 and d = $5) or ".toList ∧
    Joined Rbatis.standard .postgres mixedChain.calls
      (mixedChain.run Rbatis.standard (.new .postgres)).sql :=
  ⟨by decide +kernel, (joined_iff Template.standard_rbatis Rbatis.standard_numbered (by decide) (by decide)).mpr
    (by decide)⟩

/-- A condition, an `all_eq` without entries, `or`, and a condition. -/
def emptyEntriesChain : Chain :=
  .call (.eq ['a'] (.int64 1)) (.call (.allEq (.document [])) (.call .or
    (.call (.eq ['b'] (.int64 2)) .nil)))

/-- The `or` is lost. -/
theorem not_joined_emptyEntriesChain :
    (emptyEntriesChain.run Rbatis.standard (.new .mysql)).sql = "a = ? and b = ?".toList ∧
    ¬ Joined Rbatis.standard .mysql emptyEntriesChain.calls
      (emptyEntriesChain.run Rbatis.standard (.new .mysql)).sql := by
  have hsql : (emptyEntriesChain.run Rbatis.standard (.new .mysql)).sql = "a = ? and b = ?".toList := by
    decide +kernel
  have hpieces : joinText (pieces Rbatis.standard .mysql Call.word 0 none emptyEntriesChain.calls) =
      "a = ? or b = ?".toList := by decide +kernel
  refine ⟨hsql, ?_⟩
  rintro ⟨tail, -, htail⟩
  rw [hsql, hpieces] at htail
  have hprefix : "a = ? or b = ?".toList <+: "a = ? and b = ?".toList := ⟨_, htail.symm⟩
  exact absurd hprefix (by decide)

end ChimesUtils
