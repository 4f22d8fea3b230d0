import Mathlib

/-!
# LIKE

`likes` is the matching of SQL: `%` stands for any text, `_` for one character, and an escape
character, if there is one, for the character after it.

* `likes_append`: a text without these characters stands for itself;
* `likes_startsWith`, `likes_contains`: the two patterns made of such a text.
-/

namespace ChimesUtils.Lib

/-- Whether a pattern matches a text. -/
def likes (escape : Option Char) : List Char → List Char → Bool
  | [], r => r.isEmpty
  | c :: p, r =>
    if c = '%' then r.tails.any (likes escape p)
    else if c = '_' then !r.isEmpty && likes escape p r.tail
    else if some c = escape then
      match p with
      | [] => false
      | e :: p => decide (r.head? = some e) && likes escape p r.tail
    else decide (r.head? = some c) && likes escape p r.tail

/-- The text has no character with a meaning of its own. -/
def Verbatim (escape : Option Char) (s : List Char) : Prop :=
  ∀ c ∈ s, c ≠ '%' ∧ c ≠ '_' ∧ some c ≠ escape

variable {escape : Option Char} {s p r : List Char}

theorem verbatim_reverse (hs : Verbatim escape s) : Verbatim escape s.reverse :=
  fun c hc => hs c (List.mem_reverse.mp hc)

theorem likes_percent : likes escape ('%' :: p) r = true ↔ ∃ b, b <:+ r ∧ likes escape p b = true := by
  have hany : likes escape ('%' :: p) r = r.tails.any (likes escape p) := by
    rw [likes.eq_def]
    exact if_pos rfl
  rw [hany, List.any_eq_true]
  exact exists_congr fun b => and_congr_left fun _ => List.mem_tails b r

theorem likes_percent_nil : likes escape ['%'] r = true :=
  likes_percent.mpr ⟨[], List.nil_suffix, rfl⟩

/-- A text stands for itself. -/
theorem likes_append (hs : Verbatim escape s) :
    likes escape (s ++ p) r = true ↔ ∃ b, r = s ++ b ∧ likes escape p b = true := by
  induction s generalizing r with
  | nil => simp
  | cons c s ih =>
    obtain ⟨⟨hpercent, hunderscore, hescape⟩, hs'⟩ := List.forall_mem_cons.mp hs
    have hhead : likes escape (c :: (s ++ p)) r =
        (decide (r.head? = some c) && likes escape (s ++ p) r.tail) := by
      rw [likes.eq_def]
      exact (if_neg hpercent).trans ((if_neg hunderscore).trans (if_neg hescape))
    rw [List.cons_append, hhead, Bool.and_eq_true, decide_eq_true_iff]
    cases r with
    | nil => simp
    | cons d r =>
      rw [List.head?_cons, List.tail_cons, Option.some.injEq, ih hs']
      constructor
      · rintro ⟨hdc, b, rfl, hb⟩
        subst hdc
        exact ⟨b, rfl, hb⟩
      · rintro ⟨b, hr, hb⟩
        obtain ⟨rfl, rfl⟩ := List.cons_eq_cons.mp hr
        exact ⟨rfl, b, rfl, hb⟩

theorem likes_startsWith (hs : Verbatim escape s) : likes escape (s ++ ['%']) r = true ↔ s <+: r := by
  rw [likes_append hs]
  constructor
  · rintro ⟨b, rfl, -⟩
    exact List.prefix_append s b
  · rintro ⟨b, rfl⟩
    exact ⟨b, rfl, likes_percent_nil⟩

theorem likes_contains (hs : Verbatim escape s) :
    likes escape ('%' :: (s ++ ['%'])) r = true ↔ s <:+: r := by
  rw [likes_percent, List.infix_iff_prefix_suffix]
  exact exists_congr fun b => by rw [likes_startsWith hs, and_comm]

end ChimesUtils.Lib
