import Mathlib

/-!
# Column identifiers of SQL

A column is a name, or several joined with dots, with blanks around. A name is a word or is quoted, and
a reserved word is a name only after a dot. The words, the reserved ones and the quotes are those of a
`Dialect`.

* `Dialect.Column`: a single column identifier;
* `Dialect.Column.unquoted`: without quotes it is free of punctuation and operators.
-/

namespace ChimesUtils.Lib

/-- The characters of operators, comments, literals and lists. -/
def punctuation : List Char :=
  [',', ';', '(', ')', '=', '<', '>', '!', '+', '-', '*', '/', '%', '&', '|', '^', '~', '\'', '?', ':',
    '\\']

def isBlank (c : Char) : Bool := c = ' ' || c = '\t' || c = '\n' || c = '\r'

/-- The words of conditions, which no dialect takes for columns. -/
def conditionWords : List (List Char) :=
  ["and".toList, "or".toList, "not".toList, "null".toList, "true".toList, "false".toList]

/-- The names of a dialect of SQL. -/
structure Dialect where
  /-- An unquoted name. -/
  word : List Char → Bool
  /-- A word, in lower case, that is a name only after a dot. -/
  reserved : List Char → Bool
  /-- The end of a quoted name that starts with the character. -/
  closing : Char → Option Char
  word_chars : ∀ s, word s = true →
    (∃ c ∈ s, c.isDigit = false) ∧
      ∀ c ∈ s, c ∉ punctuation ∧ isBlank c = false ∧ c ≠ '.' ∧ closing c = none
  reserved_conditionWords : ∀ w ∈ conditionWords, reserved w = true
  closing_quotes : ∀ c q, closing c = some q → (c, q) ∈ [('"', '"'), ('`', '`'), ('[', ']')]

namespace Dialect

variable (D : Dialect)

/-- A name in quotes, in which the closing quote is written twice. -/
def IsQuoted (s : List Char) : Prop :=
  ∃ c q name, D.closing c = some q ∧ name ≠ [] ∧
    s = c :: name.flatMap (fun x => if x = q then [q, q] else [x]) ++ [q]

/-- A single column identifier. -/
inductive Column : List Char → Prop
  | word {s : List Char} : D.word s = true → D.reserved (s.map Char.toLower) = false → Column s
  | quoted {s : List Char} : D.IsQuoted s → Column s
  | dot {s t blanks : List Char} : Column s → blanks.all isBlank = true →
      D.word t = true ∨ D.IsQuoted t → Column (s ++ '.' :: (blanks ++ t))
  | blankBefore {s : List Char} {c : Char} : isBlank c = true → Column s → Column (c :: s)
  | blankAfter {s : List Char} {c : Char} : isBlank c = true → Column s → Column (s ++ [c])

variable {D}

theorem IsQuoted.exists_quote {s : List Char} (h : D.IsQuoted s) : ∃ c ∈ s, D.closing c ≠ none := by
  obtain ⟨c, q, name, hclosing, -, rfl⟩ := h
  exact ⟨c, List.mem_cons_self, by rw [hclosing]; exact Option.some_ne_none q⟩

theorem not_punctuation_of_isBlank {c : Char} (h : isBlank c = true) : c ∉ punctuation := by
  simp only [isBlank, Bool.or_eq_true, decide_eq_true_eq] at h
  rcases h with ((rfl | rfl) | rfl) | rfl <;> decide

/-- **Unquoted columns** hold nothing but names, dots and blanks. -/
theorem Column.unquoted {s : List Char} (h : D.Column s) (hquote : ∀ c ∈ s, D.closing c = none) :
    ∀ c ∈ s, c ∉ punctuation := by
  have hname : ∀ t, (∀ c ∈ t, D.closing c = none) → D.word t = true ∨ D.IsQuoted t →
      ∀ c ∈ t, c ∉ punctuation := by
    rintro t hquote (hword | hquoted)
    · exact fun c hc => ((D.word_chars t hword).2 c hc).1
    · obtain ⟨c, hc, hclosing⟩ := hquoted.exists_quote
      exact absurd (hquote c hc) hclosing
  induction h with
  | word hword _ => exact hname _ hquote (Or.inl hword)
  | quoted hquoted => exact hname _ hquote (Or.inr hquoted)
  | dot _ hblanks ht ih =>
    intro c hc
    simp only [List.mem_append, List.mem_cons] at hquote hc
    rcases hc with hc | rfl | hc | hc
    · exact ih (fun c hc => hquote c (Or.inl hc)) c hc
    · decide
    · exact not_punctuation_of_isBlank (List.all_eq_true.mp hblanks c hc)
    · exact hname _ (fun c hc => hquote c (Or.inr (Or.inr (Or.inr hc)))) ht c hc
  | blankBefore hblank _ ih =>
    rw [List.forall_mem_cons] at hquote ⊢
    exact ⟨not_punctuation_of_isBlank hblank, ih hquote.2⟩
  | blankAfter hblank _ ih =>
    intro c hc
    rcases List.mem_append.mp hc with hc | hc
    · exact ih (fun c hc => hquote c (List.mem_append_left _ hc)) c hc
    · rw [List.mem_singleton.mp hc]
      exact not_punctuation_of_isBlank hblank

end Dialect

end ChimesUtils.Lib
