import ChimesUtils.Lib.Like
import ChimesUtils.Dynamical.Wrapper

/-!
# The patterns of the like family

`like`, `like_left` and `like_right` bind the same pattern, of the rows that start with the value;
`not_like` binds the pattern of the rows that contain it.

* `complementary_iff`: when `like` and `not_like` exclude each other and leave no row out;
* `mirrored_iff`: when `like_left` and `like_right` mirror each other;
* `likeLaws_iff`: when both hold.
-/

namespace ChimesUtils

open Lib

/-- The pattern that the last call has bound. -/
def DynamicWrapper.boundPattern (w : DynamicWrapper) : Text := (w.args.getLast?.bind Bson.asStr).getD []

section Laws

variable (R : Rbatis) (escape : Option Char) (w : DynamicWrapper) (c : Text) (s r : Text)

/-- `like` selects the row. -/
def LikeSelects : Prop := likes escape (w.like R c (.string s)).boundPattern r = true

/-- `not_like` selects the row. -/
def NotLikeSelects : Prop := ¬ likes escape (w.notLike R c (.string s)).boundPattern r = true

/-- Exactly one of them selects the row. -/
def Complementary : Prop := Xor (LikeSelects R escape w c s r) (NotLikeSelects R escape w c s r)

/-- `like_left` matches a row just when `like_right` for the reverse value matches the reverse row. -/
def Mirrored : Prop :=
  likes escape (w.likeLeft R c (.string s)).boundPattern r = true ↔
    likes escape (w.likeRight R c (.string s.reverse)).boundPattern r.reverse = true

end Laws

variable {escape : Option Char} {s r : Text}

theorem boundPattern_likeWith (R : Rbatis) (op : Text) (pattern : Text → Text) (w : DynamicWrapper)
    (c s : Text) :
    (w.likeWith R op pattern c (.string s)).boundPattern = pattern s := by
  have hargs : (w.likeWith R op pattern c (.string s)).args =
      ((w.and R).pushSql (c ++ op)).args ++ [.string (pattern s)] := rfl
  rw [DynamicWrapper.boundPattern, hargs, List.getLast?_concat]
  rfl

theorem likeSelects_iff (hs : Verbatim escape s) (R : Rbatis) (w : DynamicWrapper) (c : Text) :
    LikeSelects R escape w c s r ↔ s <+: r := by
  rw [LikeSelects, DynamicWrapper.like, boundPattern_likeWith]
  exact likes_startsWith hs

theorem notLikeSelects_iff (hs : Verbatim escape s) (R : Rbatis) (w : DynamicWrapper) (c : Text) :
    NotLikeSelects R escape w c s r ↔ ¬ s <:+: r := by
  rw [NotLikeSelects, DynamicWrapper.notLike, boundPattern_likeWith]
  exact not_congr (likes_contains hs)

/-- `like` and `not_like` are complementary just where the value, if it occurs, is at the start. -/
theorem complementary_iff (hs : Verbatim escape s) (R : Rbatis) (w : DynamicWrapper) (c : Text) :
    Complementary R escape w c s r ↔ (s <:+: r → s <+: r) := by
  rw [Complementary, likeSelects_iff hs, notLikeSelects_iff hs, xor_not_right]
  exact ⟨fun h => h.mpr, fun h => ⟨List.IsPrefix.isInfix, h⟩⟩

/-- `like_left` and `like_right` are mirror images just where the value is at both ends or at none. -/
theorem mirrored_iff (hs : Verbatim escape s) (R : Rbatis) (w : DynamicWrapper) (c : Text) :
    Mirrored R escape w c s r ↔ (s <+: r ↔ s <:+ r) := by
  rw [Mirrored, DynamicWrapper.likeLeft, DynamicWrapper.likeRight, boundPattern_likeWith,
    boundPattern_likeWith, likes_startsWith hs, likes_startsWith (verbatim_reverse hs),
    List.reverse_prefix]

/-- **The laws of the like family.** For every value without special characters and every row, exactly
one of `like` and `not_like` selects the row, and `like_left` and `like_right` are mirror images, just
when the value does not occur in the row, or the row starts and ends with it. -/
theorem likeLaws_iff (R : Rbatis) (w : DynamicWrapper) (c : Text) (hs : Verbatim escape s) (r : Text) :
    (Complementary R escape w c s r ∧ Mirrored R escape w c s r) ↔
      (¬ s <:+: r ∨ (s <+: r ∧ s <:+ r)) := by
  rw [complementary_iff hs, mirrored_iff hs]
  constructor
  · rintro ⟨hstart, hmirror⟩
    by_cases h : s <:+: r
    · exact Or.inr ⟨hstart h, hmirror.mp (hstart h)⟩
    · exact Or.inl h
  · rintro (h | ⟨hstart, hend⟩)
    · refine ⟨fun hin => absurd hin h, ?_⟩
      exact iff_of_false (fun hp => h hp.isInfix) fun hsuf => h hsuf.isInfix
    · exact ⟨fun _ => hstart, iff_of_true hstart hend⟩

/-- The laws hold of a row that is the value. -/
theorem likeLaws_self :
    Complementary .standard (some '\\') (.new .mysql) ['c'] ['a'] ['a'] ∧
      Mirrored .standard (some '\\') (.new .mysql) ['c'] ['a'] ['a'] :=
  (likeLaws_iff .standard (.new .mysql) ['c'] (by simp [Verbatim]) ['a']).mpr
    (Or.inr ⟨List.prefix_rfl, List.suffix_rfl⟩)

/-- A value in the middle of a row: neither `like` nor `not_like` selects it. A value at the start: the
reverse row does not start with it. -/
theorem not_likeLaws_middle :
    ¬ LikeSelects .standard (some '\\') (.new .mysql) ['c'] ['a'] ['b', 'a'] ∧
    ¬ NotLikeSelects .standard (some '\\') (.new .mysql) ['c'] ['a'] ['b', 'a'] ∧
    ¬ Complementary .standard (some '\\') (.new .mysql) ['c'] ['a'] ['b', 'a'] ∧
    ¬ Mirrored .standard (some '\\') (.new .mysql) ['c'] ['a'] ['a', 'b'] := by
  have hs : Verbatim (some '\\') ['a'] := by simp [Verbatim]
  rw [likeSelects_iff hs, notLikeSelects_iff hs, complementary_iff hs, mirrored_iff hs]
  decide +kernel

end ChimesUtils
