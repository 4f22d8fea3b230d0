import ChimesUtils.Dynamical.Wrapper

/-!
# The conjunction of a document

`all_eq` writes an equality for each entry of a document, joined by ` and ` and between brackets. Neither
the bracket nor the ` and ` lets the `and` of an equality add a connective.

* `allEq_document`: the text and the arguments after `all_eq`;
* `writesEntries_iff`: without entries, `all_eq` changes nothing just when no connective could be added.
-/

namespace ChimesUtils

open Lib

/-- The entries of a document; other values have none. -/
def Bson.entries : Bson → List (Text × Bson)
  | .document map => map
  | _ => []

namespace DynamicWrapper

variable (R : Rbatis)

/-- The equality of an entry; `i` arguments of the document come before its own. -/
def equality (w : DynamicWrapper) (i : ℕ) (e : Text × Bson) : Text :=
  e.1 ++ " = ".toList ++ w.doFormatColumn e.1 (R.stmtConvert w.driverType (w.args.length + i))

/-- The equalities of the entries, in order. -/
def equalities (w : DynamicWrapper) (map : List (Text × Bson)) : List Text :=
  map.mapIdx (w.equality R)

/-- Append a text and arguments. -/
def append (w : DynamicWrapper) (sql : Text) (args : List Bson) : DynamicWrapper :=
  { w with sql := w.sql ++ sql, args := w.args ++ args }

/-- Without entries, `all_eq` leaves the text and the arguments as they are. Otherwise it appends, after
the connective of `and`, the equalities of the entries between brackets, and their values. -/
def WritesEntries (w : DynamicWrapper) (v : Bson) : Prop :=
  if v.entries = [] then (w.allEq R v).sql = w.sql ∧ (w.allEq R v).args = w.args
  else (w.allEq R v).sql = (w.and R).sql ++
      (['('] ++ List.intercalate " and ".toList (w.equalities R v.entries) ++ [')']) ∧
    (w.allEq R v).args = w.args ++ v.entries.map Prod.snd

section Blocked

variable {R} {w : DynamicWrapper}

theorem and_of_blocked (h : w.notAllowAddAndOnEnd R = true) : w.and R = w := if_pos h

theorem and_of_not_blocked (h : w.notAllowAddAndOnEnd R ≠ true) :
    w.and R = w.pushSql R.template.and.leftRightSpace := if_neg h

@[simp] theorem and_args (w : DynamicWrapper) : (w.and R).args = w.args := by
  unfold DynamicWrapper.and connect
  split_ifs <;> rfl

theorem equality_and (w : DynamicWrapper) : (w.and R).equality R = w.equality R := by
  unfold DynamicWrapper.and connect
  split_ifs <;> rfl

theorem blocked_of_stop {p : Text} (hp : p ∈ stops R) (hs : ∃ r, trimEnd w.sql = r ++ p) :
    w.notAllowAddAndOnEnd R = true := by
  obtain ⟨r, hr⟩ := hs
  unfold notAllowAddAndOnEnd
  rw [hr, Bool.or_eq_true, List.any_eq_true]
  exact Or.inr ⟨p, hp, decide_eq_true ⟨r, rfl⟩⟩

theorem blocked_bracket (w : DynamicWrapper) : (w.pushSql ['(']).notAllowAddAndOnEnd R = true := by
  refine blocked_of_stop (p := ['(']) (by simp [stops]) ⟨w.sql, ?_⟩
  exact trimEnd_concat _ (by decide)

theorem blocked_of_stop_space {p s : Text} {c : Char} (hp : p ++ [c] ∈ stops R)
    (hc : isWhitespace c = false) (h : w.sql = s ++ (p ++ [c] ++ [' '])) :
    w.notAllowAddAndOnEnd R = true := by
  refine blocked_of_stop hp ⟨s, ?_⟩
  rw [h, ← List.append_assoc, ← List.append_assoc]
  exact trimEnd_concat_space _ hc

theorem blocked_and (hand : R.template.and.leftSpace = " and".toList) (w : DynamicWrapper) :
    (w.pushSql " and ".toList).notAllowAddAndOnEnd R = true := by
  refine blocked_of_stop_space (p := " an".toList) (c := 'd') ?_ (by decide) rfl
  simp [stops, hand]

/-- **One entry**, where no connective can be added. -/
theorem eq_of_blocked (h : w.notAllowAddAndOnEnd R = true) (e : Text × Bson) :
    w.eq R e.1 e.2 = w.append (w.equality R 0 e) [e.2] := by
  unfold DynamicWrapper.eq compare
  rw [and_of_blocked h]
  simp [bindArg, pushSql, pushArg, convertColumn, doFormatColumn, append, equality]

theorem equalities_append (w : DynamicWrapper) (sql : Text) (v : Bson) (map : List (Text × Bson)) :
    (w.append sql [v]).equalities R map = map.mapIdx fun i => w.equality R (i + 1) := by
  unfold equalities
  congr 1
  funext i e
  simp [equality, append, doFormatColumn, Nat.add_assoc, Nat.add_comm 1]

/-- **The loop**, where no connective can be added before the first entry. -/
theorem allEqLoop_of_blocked (hand : R.template.and.leftSpace = " and".toList)
    {map : List (Text × Bson)} (hmap : map ≠ [])
    {index len : ℕ} (hlen : index + map.length = len) (h : w.notAllowAddAndOnEnd R = true) :
    allEqLoop R len index map w =
      w.append (List.intercalate " and ".toList (w.equalities R map)) (map.map Prod.snd) := by
  induction map generalizing index w with
  | nil => exact absurd rfl hmap
  | cons e map ih =>
    rw [List.length_cons] at hlen
    have hentry := eq_of_blocked h e
    cases map with
    | nil =>
      rw [allEqLoop, if_neg (by rw [List.length_nil] at hlen; omega), allEqLoop, hentry]
      simp [equalities]
    | cons e' map =>
      have hnext : (w.append (w.equality R 0 e) [e.2]).pushSql " and ".toList =
          w.append (w.equality R 0 e ++ " and ".toList) [e.2] := by
        simp [append, pushSql]
      have hlen' : index + 1 + (e' :: map).length = len := by omega
      have hrest := ih (List.cons_ne_nil _ _) hlen' (blocked_and hand (w.append (w.equality R 0 e) [e.2]))
      rw [allEqLoop, if_pos (by rw [List.length_cons] at hlen; omega), hentry, hrest, hnext,
        equalities_append]
      simp [append, equalities, List.intercalate_cons_cons]

end Blocked

/-- **A document with entries.** -/
theorem allEq_document {R : Rbatis} (hand : R.template.and.leftSpace = " and".toList)
    (w : DynamicWrapper) {map : List (Text × Bson)} (hmap : map ≠ []) :
    w.allEq R (.document map) = (w.and R).append
      (['('] ++ List.intercalate " and ".toList (w.equalities R map) ++ [')']) (map.map Prod.snd) := by
  have hopen : ((w.and R).pushSql ['(']).equalities R map = w.equalities R map := by
    unfold equalities
    rw [← equality_and w]
    rfl
  unfold DynamicWrapper.allEq
  simp only [List.isEmpty_iff, if_neg hmap]
  rw [allEqLoop_of_blocked hand hmap (Nat.zero_add _) (blocked_bracket _), hopen]
  simp [append, pushSql]

theorem allEq_of_entries_eq_nil (R : Rbatis) (w : DynamicWrapper) {v : Bson} (h : v.entries = []) :
    w.allEq R v = w.and R := by
  cases v with
  | document map =>
    obtain rfl : map = [] := h
    rfl
  | _ => rfl

/-- **Entries of a document.** For every wrapper and every argument: `all_eq` writes the entries of the
argument, and nothing when there are none, just when there are some or no connective could be added. -/
theorem writesEntries_iff {R : Rbatis} (hand : R.template.and.leftSpace = " and".toList)
    (hne : R.template.and.leftRightSpace ≠ []) (w : DynamicWrapper) (v : Bson) :
    w.WritesEntries R v ↔ v.entries ≠ [] ∨ w.notAllowAddAndOnEnd R = true := by
  unfold WritesEntries
  by_cases hv : v.entries = []
  · rw [if_pos hv, allEq_of_entries_eq_nil R w hv]
    by_cases hblocked : w.notAllowAddAndOnEnd R = true
    · rw [and_of_blocked hblocked]
      exact iff_of_true ⟨rfl, rfl⟩ (Or.inr hblocked)
    · refine iff_of_false ?_ (not_or.mpr ⟨not_not.mpr hv, hblocked⟩)
      rintro ⟨hsql, -⟩
      rw [and_of_not_blocked hblocked] at hsql
      exact hne (List.append_right_eq_self.mp hsql)
  · refine iff_of_true ?_ (Or.inl hv)
    rw [if_neg hv]
    cases v with
    | document map =>
      have hmap : map ≠ [] := hv
      rw [allEq_document hand w hmap]
      exact ⟨rfl, congrArg (· ++ _) (and_args w)⟩
    | _ => exact absurd rfl hv

/-- A condition, on a wrapper that formats the column `c`. -/
def formattedWrapper : DynamicWrapper :=
  (((new .postgres).setFormats fun column =>
    if column = ['c'] then some "lower(\x7b\x7d)".toList else none)).eq Rbatis.standard ['a'] (.int64 1)

theorem writesEntries_formattedWrapper :
    (formattedWrapper.allEq Rbatis.standard (.document [(['c'], .null), (['d'], .int64 2)])).sql =
      "a = $1 and (c = lower($2) and d = $3)".toList ∧
    formattedWrapper.WritesEntries Rbatis.standard (.document [(['c'], .null), (['d'], .int64 2)]) :=
  ⟨by decide +kernel, (writesEntries_iff rfl (by decide) _ _).mpr (Or.inl (by decide))⟩

/-- A document without entries leaves a connective. -/
theorem not_writesEntries_empty :
    (formattedWrapper.allEq Rbatis.standard (.document [])).sql = "a = $1 and ".toList ∧
    ¬ formattedWrapper.WritesEntries Rbatis.standard (.document []) := by
  have hbefore : formattedWrapper.sql = "a = $1".toList := by decide +kernel
  have hafter : (formattedWrapper.allEq Rbatis.standard (.document [])).sql = "a = $1 and ".toList := by
    decide +kernel
  refine ⟨hafter, fun hwrites => ?_⟩
  have hsql : (formattedWrapper.allEq Rbatis.standard (.document [])).sql = formattedWrapper.sql :=
    hwrites.1
  rw [hbefore, hafter] at hsql
  exact absurd hsql (by decide)

end DynamicWrapper

end ChimesUtils
