import ChimesUtils.Dynamical.Wrapper
import ChimesUtils.Lib.Renumber

/-!
# Linking wrappers

`push_wrapper` renumbers the placeholders of the pushed wrapper by one text replacement for each of
its arguments. For Postgres and SQL Server these replacements are the passes of `Lib.Renumber`.

* `renamePlaceholders`: what the replacements are for, all placeholders renamed at once;
* `pushWrapper_renames_iff`: exactly when the linked wrapper is numbered from one to the end.
-/

namespace ChimesUtils

open Lib

/-- The marker of the numbered placeholders of a driver. -/
def marker : DriverType → Marker
  | .mssql => atP
  | _ => dollar

/-- Every placeholder `i` renamed to `k + i`, all at once. -/
def renamePlaceholders (d : DriverType) (k : ℕ) (s : Text) : Text :=
  renameTokens (marker d) (fun ds => (marker d).text ++ decimal (Nat.ofDigitChars 10 ds 0 + k)) s

/-- The placeholders of the statement are those of its arguments, from left to right. -/
def DynamicWrapper.Counts (R : Rbatis) (d : DriverType) (w : DynamicWrapper) : Prop :=
  placeholders d w.sql = (List.range w.args.length).map (R.stmtConvert d)

instance (R : Rbatis) (d : DriverType) (w : DynamicWrapper) : Decidable (w.Counts R d) :=
  inferInstanceAs (Decidable (placeholders d w.sql = _))

section Push

variable {R : Rbatis} (hR : R.Numbered) {d : DriverType} (hd : d = .postgres ∨ d = .mssql)

include hR hd in
theorem stmtConvert_token (i : ℕ) :
    R.stmtConvert d i = (Numeral.ofNat (i + 1)).token (marker d) := by
  rcases hd with rfl | rfl
  · exact hR.postgres i
  · exact hR.mssql i

include hd in
theorem placeholders_tokens : placeholders d = tokens (marker d) := by
  rcases hd with rfl | rfl <;> rfl

include hd in
theorem pushWrapper_sql {w : DynamicWrapper} (hw : w.driverType = d) (v : DynamicWrapper) :
    (w.pushWrapper R v).sql = w.sql ++ DynamicWrapper.pushLoop R d w.args.length v.args.length v.sql := by
  rw [DynamicWrapper.pushWrapper, DynamicWrapper.push, hw]
  rcases hd with rfl | rfl <;> rfl

theorem pushWrapper_args (w v : DynamicWrapper) : (w.pushWrapper R v).args = w.args ++ v.args := rfl

include hR hd in
theorem pushLoop_render (k n : ℕ) {D : Marked Char Numeral} (hD : Scanned (marker d) D) :
    DynamicWrapper.pushLoop R d k n (render (Numeral.token (marker d)) D) =
      render (Numeral.token (marker d)) (mapMarks (passes k n) D) := by
  rw [← foldl_replace_render _ _ _ hD, DynamicWrapper.pushLoop]
  simp only [stmtConvert_token hR hd, Nat.add_right_comm _ k 1]

theorem renamePlaceholders_render (k : ℕ) {D : Marked Char Numeral} (hD : Scanned (marker d) D) :
    renamePlaceholders d k (render (Numeral.token (marker d)) D) =
      render (Numeral.token (marker d)) (mapMarks (fun x => Numeral.ofNat (x.value + k)) D) := by
  rw [renamePlaceholders, renameTokens_render _ hD, render_mapMarks]
  rfl

include hR hd in
theorem exists_render_of_counts {v : DynamicWrapper} (hv : v.Counts R d) :
    ∃ D : Marked Char Numeral, render (Numeral.token (marker d)) D = v.sql ∧ Scanned (marker d) D ∧
      marks D = (List.range v.args.length).map fun i => Numeral.ofNat (i + 1) := by
  obtain ⟨D, hsql, hD⟩ := exists_scan (marker d) v.sql
  refine ⟨D, hsql, hD, ?_⟩
  rw [DynamicWrapper.Counts, placeholders_tokens hd, ← hsql, hD.tokens_eq] at hv
  refine (List.map_inj_right fun _ _ h => Numeral.token_injective _ h).mp (hv.trans ?_)
  rw [List.map_map]
  exact List.map_congr_left fun i _ => stmtConvert_token hR hd i

theorem render_mapMarks_inj {m : Marker} {D : Marked Char Numeral} (hD : Scanned m D)
    (F G : Numeral → Numeral) :
    render (Numeral.token m) (mapMarks F D) = render (Numeral.token m) (mapMarks G D) ↔
      ∀ x ∈ marks D, F x = G x := by
  constructor
  · intro h
    have ht := congrArg (tokens m) h
    rw [(hD.mapMarks F).tokens_eq, (hD.mapMarks G).tokens_eq, marks_mapMarks, marks_mapMarks,
      List.map_inj_right fun _ _ h => Numeral.token_injective m h] at ht
    exact List.map_inj_left.mp ht
  · intro h
    rw [render_mapMarks, render_mapMarks]
    exact render_congr _ fun x hx => congrArg (Numeral.token m) (h x hx)

include hR hd in
/-- **Linking.** The statement of the linked wrapper is the one of `w` followed by the one of `v`
with all placeholders renamed at once, it counts all arguments from left to right, and the arguments
are those of `w` followed by those of `v`, if and only if no pass of the renumbering clashes with
another one and no placeholder arises or changes where the two statements meet. -/
theorem pushWrapper_renames_iff {w v : DynamicWrapper} (hwd : w.driverType = d)
    (hw : w.Counts R d) (hv : v.Counts R d) :
    ((w.pushWrapper R v).sql = w.sql ++ renamePlaceholders d w.args.length v.sql ∧
        (w.pushWrapper R v).Counts R d ∧ (w.pushWrapper R v).args = w.args ++ v.args) ↔
      (w.args.length = 0 ∨ NoClash w.args.length v.args.length) ∧
        placeholders d (w.sql ++ v.sql) = placeholders d w.sql ++ placeholders d v.sql := by
  obtain ⟨D, hsql, hD, hmarks⟩ := exists_render_of_counts hR hd hv
  have hrenamed := renamePlaceholders_render w.args.length hD
  have hpush := pushWrapper_sql (R := R) hd hwd v
  rw [hsql] at hrenamed
  rw [← hsql, pushLoop_render hR hd _ _ hD] at hpush
  -- the passes rename all placeholders
  have hfirst : (w.pushWrapper R v).sql = w.sql ++ renamePlaceholders d w.args.length v.sql ↔
      (w.args.length = 0 ∨ NoClash w.args.length v.args.length) := by
    rw [hpush, hrenamed, List.append_cancel_left_eq, render_mapMarks_inj hD, ← passes_eq_iff, hmarks]
    constructor
    · intro h i hi hin
      have := h (Numeral.ofNat i) (List.mem_map.mpr ⟨i - 1, List.mem_range.mpr (by omega), by
        rw [Nat.sub_add_cancel hi]⟩)
      rwa [Numeral.value_ofNat] at this
    · intro h x hx
      obtain ⟨i, hi, rfl⟩ := List.mem_map.mp hx
      rw [Numeral.value_ofNat]
      exact h (i + 1) (by omega) (List.mem_range.mp hi)
  -- the renamed statements are read one after the other
  have hsecond : (w.pushWrapper R v).sql = w.sql ++ renamePlaceholders d w.args.length v.sql →
      ((w.pushWrapper R v).Counts R d ↔
        placeholders d (w.sql ++ v.sql) = placeholders d w.sql ++ placeholders d v.sql) := by
    intro h
    have hwant : (List.range (w.pushWrapper R v).args.length).map (R.stmtConvert d) =
        tokens (marker d) w.sql ++ (marks D).map fun x =>
          (Numeral.ofNat (x.value + w.args.length)).token (marker d) := by
      rw [← placeholders_tokens hd, hw, pushWrapper_args, List.length_append, List.range_add,
        List.map_append, hmarks, List.map_map, List.map_map]
      congr 1
      refine List.map_congr_left fun i _ => ?_
      rw [Function.comp_apply, Function.comp_apply, stmtConvert_token hR hd, Numeral.value_ofNat]
      congr 2
      omega
    rw [DynamicWrapper.Counts, hwant, h, hrenamed, placeholders_tokens hd, tokens_append,
      tokens_append, (hD.mapMarks _).tokens_eq, tokensIn_render_mapMarks, marks_mapMarks,
      List.map_map, hsql]
    exact (List.append_left_inj _).trans (List.append_left_inj _).symm
  rw [← hfirst, pushWrapper_args, and_iff_left rfl]
  exact and_congr_right hsecond

end Push

/-- A wrapper for Postgres with the given statement and number arguments. -/
def DynamicWrapper.written (sql : Text) (args : List ℤ) : DynamicWrapper :=
  { DynamicWrapper.new .postgres with sql := sql, args := args.map .int64 }

theorem pushWrapper_renames_one :
    ((DynamicWrapper.written "b = $1 and ".toList [2]).pushWrapper .standard
        (.written "(a = $1)".toList [1])).sql =
      "b = $1 and ".toList ++ renamePlaceholders .postgres 1 "(a = $1)".toList :=
  ((pushWrapper_renames_iff (d := .postgres) Rbatis.standard_numbered (Or.inl rfl) rfl
    (by decide) (by decide)).mpr ⟨Or.inr ⟨by decide, fun i j _ _ hj => by
      have hj' : j ≤ 1 := hj
      omega⟩, by decide⟩).1

/-- Two placeholders pushed after one: the second pass hits the token the first one wrote. -/
theorem pushWrapper_clash :
    (DynamicWrapper.written "a = $1".toList [1]).Counts .standard .postgres ∧
      (DynamicWrapper.written " and b = $1 and c = $2".toList [2, 3]).Counts .standard .postgres ∧
      ((DynamicWrapper.written "a = $1".toList [1]).pushWrapper .standard
          (.written " and b = $1 and c = $2".toList [2, 3])).sql =
        "a = $1 and b = $3 and c = $3".toList ∧
      ¬ ((DynamicWrapper.written "a = $1".toList [1]).pushWrapper .standard
          (.written " and b = $1 and c = $2".toList [2, 3])).Counts .standard .postgres := by
  decide

end ChimesUtils
