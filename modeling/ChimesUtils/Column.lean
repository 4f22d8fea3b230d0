import ChimesUtils.Rust

/-!
# Column identifiers

What the source calls a column is a string that it writes into a statement as it is. `IsColumn` are
names of ASCII letters, digits and underscores, `IsPlainColumn` those that are no connecting keyword.
-/

namespace ChimesUtils

/-- A character of a column: a letter, a digit, an underscore, or the dot after a table. -/
def columnChar (c : Char) : Bool := c.isAlphanum || c == '_' || c == '.'

/-- A name does not start with a digit. -/
def startsName : Text → Bool
  | [] => false
  | c :: _ => !c.isDigit

/-- An unquoted name, with its table or without. It may be a reserved word. -/
def IsColumn (s : Text) : Prop :=
  s.all columnChar = true ∧ (s.splitOn '.').all startsName = true

instance (s : Text) : Decidable (IsColumn s) := inferInstanceAs
  (Decidable (s.all columnChar = true ∧ (s.splitOn '.').all startsName = true))

/-- A column that is none of the keywords the builder adds and trims. -/
def IsPlainColumn (s : Text) : Prop :=
  IsColumn s ∧ s ∉ ["where".toList, "and".toList, "or".toList]

instance (s : Text) : Decidable (IsPlainColumn s) := inferInstanceAs
  (Decidable (IsColumn s ∧ s ∉ ["where".toList, "and".toList, "or".toList]))

namespace IsColumn

variable {s : Text}

theorem ne_nil (h : IsColumn s) : s ≠ [] := by
  rintro rfl
  exact absurd h (by decide)

theorem notMem {c : Char} (hc : columnChar c = false) (h : IsColumn s) : c ∉ s := by
  intro hmem
  have := List.all_eq_true.mp h.1 c hmem
  rw [hc] at this
  cases this

theorem no_space (h : IsColumn s) : ' ' ∉ s := h.notMem (by decide)

end IsColumn

theorem columnChar_bounds {c : Char} (h : columnChar c = true) : 46 ≤ c.toNat ∧ c.toNat ≤ 122 := by
  simp only [columnChar, Char.isAlphanum, Char.isAlpha, Char.isUpper, Char.isLower, Char.isDigit,
    Bool.or_eq_true, Bool.and_eq_true, decide_eq_true_eq, beq_iff_eq, ge_iff_le,
    UInt32.le_iff_toNat_le] at h
  rcases h with ((h | h) | rfl) | rfl
  · rcases h with h | h
    · exact ⟨le_trans (by decide) h.1, le_trans h.2 (by decide)⟩
    · exact ⟨le_trans (by decide) h.1, le_trans h.2 (by decide)⟩
  · exact ⟨le_trans (by decide) h.1, le_trans h.2 (by decide)⟩
  · decide
  · decide

theorem columnChar_not_whitespace {c : Char} (h : columnChar c = true) : isWhitespace c = false := by
  have hc := columnChar_bounds h
  exact isWhitespace_eq_false (by omega) (by omega)

end ChimesUtils
