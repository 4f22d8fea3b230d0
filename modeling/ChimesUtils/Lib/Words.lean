import Mathlib

/-!
# Words

The words of a text are separated by white space; brackets and commas are words of their own.

* `Reads t ws`: before anything that ends a word, the text `t` gives the words `ws`;
* `reads_word`, `Reads.spaced`, `Reads.space`, `Reads.alone`: how texts are read that are put together
  with white space, brackets and commas.
-/

namespace ChimesUtils.Lib

/-- A bracket or a comma. -/
def standsAlone (c : Char) : Bool := c = '(' || c = ')' || c = ','

/-- The word that has been read, if there is one. -/
def flush (word : List Char) : List (List Char) := if word.isEmpty then [] else [word]

/-- The words of a text after the beginning of a word. -/
def wordsFrom : List Char → List Char → List (List Char)
  | word, [] => flush word
  | word, c :: s =>
    if c.isWhitespace then flush word ++ wordsFrom [] s
    else if standsAlone c then flush word ++ [c] :: wordsFrom [] s
    else wordsFrom (word ++ [c]) s

def words : List Char → List (List Char) := wordsFrom []

/-- The character belongs to a word. -/
def inWord (c : Char) : Bool := !c.isWhitespace && !standsAlone c

/-- The text is a word that does not stand alone. -/
def IsWord (w : List Char) : Prop := w ≠ [] ∧ ∀ c ∈ w, inWord c = true

instance (w : List Char) : Decidable (IsWord w) :=
  decidable_of_iff (w ≠ [] ∧ w.all inWord = true) (and_congr_right fun _ => List.all_eq_true)

/-- No word goes on into the text. -/
def Stops (rest : List Char) : Prop := ∀ c ∈ rest.head?, inWord c = false

def Reads (t : List Char) (ws : List (List Char)) : Prop :=
  ∀ rest, Stops rest → words (t ++ rest) = ws ++ words rest

variable {t u w rest : List Char} {ws us : List (List Char)} {c : Char}

theorem inWord_of_isAlphanum (hc : c.isAlphanum = true) : inWord c = true := by
  have hno : ∀ b : Char, b.isAlphanum = false → c ≠ b := by
    rintro b hb rfl
    rw [hb] at hc
    cases hc
  simp [inWord, Char.isWhitespace, standsAlone, hno ' ' (by decide), hno '\t' (by decide),
    hno '\r' (by decide), hno '\n' (by decide), hno '(' (by decide), hno ')' (by decide),
    hno ',' (by decide)]

theorem stops_nil : Stops [] := fun _ h => by cases h

theorem stops_cons (hc : inWord c = false) : Stops (c :: rest) := by
  rintro _ ⟨⟩
  exact hc

theorem words_space (hc : c.isWhitespace = true) (s : List Char) : words (c :: s) = words s := by
  rw [words, wordsFrom, if_pos hc]
  rfl

theorem words_alone (hspace : c.isWhitespace = false) (hc : standsAlone c = true) (s : List Char) :
    words (c :: s) = [c] :: words s := by
  rw [words, wordsFrom, hspace, if_neg Bool.false_ne_true, if_pos hc]
  rfl

theorem wordsFrom_append (hu : ∀ c ∈ u, inWord c = true) (w s : List Char) :
    wordsFrom w (u ++ s) = wordsFrom (w ++ u) s := by
  induction u generalizing w with
  | nil => rw [List.append_nil, List.nil_append]
  | cons c u ih =>
    obtain ⟨hc, hu'⟩ := List.forall_mem_cons.mp hu
    rw [inWord, Bool.and_eq_true, Bool.not_eq_true', Bool.not_eq_true'] at hc
    rw [List.cons_append, wordsFrom, hc.1, hc.2, if_neg Bool.false_ne_true, if_neg Bool.false_ne_true,
      ih hu', List.append_assoc, List.singleton_append]

theorem wordsFrom_stops (hw : w ≠ []) (hrest : Stops rest) : wordsFrom w rest = w :: words rest := by
  have hflush : flush w = [w] := if_neg (by simpa using hw)
  cases rest with
  | nil => exact hflush
  | cons c rest =>
    have hc := hrest c rfl
    rw [wordsFrom, hflush]
    by_cases hspace : c.isWhitespace = true
    · rw [if_pos hspace, words_space hspace]
      rfl
    · have hspace' : c.isWhitespace = false := by simpa using hspace
      have halone : standsAlone c = true := by simpa [inWord, hspace'] using hc
      rw [if_neg hspace, if_pos halone, words_alone hspace' halone]
      rfl

theorem reads_word (hw : IsWord w) : Reads w [w] := by
  intro rest hrest
  rw [words, wordsFrom_append hw.2, List.nil_append, wordsFrom_stops hw.1 hrest]
  rfl

theorem reads_nil : Reads [] [] := fun _ _ => rfl

namespace Reads

/-- White space between two texts. -/
theorem space (ht : Reads t ws) (hu : Reads u us) : Reads (t ++ ' ' :: u) (ws ++ us) := by
  intro rest hrest
  rw [List.append_assoc, ht (' ' :: u ++ rest) (stops_cons (by decide)), List.cons_append,
    words_space (by decide), hu rest hrest, List.append_assoc]

theorem cons (hspace : c.isWhitespace = false) (hc : standsAlone c = true) (ht : Reads t ws) :
    Reads (c :: t) ([c] :: ws) := by
  intro rest hrest
  rw [List.cons_append, words_alone hspace hc, ht rest hrest, List.cons_append]

/-- A bracket or a comma between two texts. -/
theorem alone (hspace : c.isWhitespace = false) (hc : standsAlone c = true) (ht : Reads t ws)
    (hu : Reads u us) : Reads (t ++ c :: u) (ws ++ [c] :: us) := by
  intro rest hrest
  have hin : inWord c = false := by rw [inWord, hc, Bool.not_true, Bool.and_false]
  rw [List.append_assoc, ht (c :: u ++ rest) (stops_cons hin), hu.cons hspace hc rest hrest,
    List.append_assoc]

theorem space_cons (ht : Reads t ws) : Reads (' ' :: t) ws := reads_nil.space ht

theorem space_concat (ht : Reads t ws) : Reads (t ++ [' ']) ws := by
  have h := ht.space reads_nil
  rwa [List.append_nil] at h

theorem spaced {ws : List (List Char)} (hne : ws ≠ []) (hws : ∀ w ∈ ws, IsWord w) :
    Reads (List.intercalate [' '] ws) ws := by
  induction ws with
  | nil => exact absurd rfl hne
  | cons w ws ih =>
    obtain ⟨hw, hws'⟩ := List.forall_mem_cons.mp hws
    cases ws with
    | nil =>
      rw [List.intercalate_singleton]
      exact reads_word hw
    | cons w' ws =>
      rw [List.intercalate_cons_cons, List.append_assoc]
      exact (reads_word hw).space (ih (List.cons_ne_nil _ _) hws')

theorem words_eq (ht : Reads t ws) : words t = ws := by
  have h := ht [] stops_nil
  rw [List.append_nil] at h
  rw [h]
  exact List.append_nil ws

end Reads

end ChimesUtils.Lib
