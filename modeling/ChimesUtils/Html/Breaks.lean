import ChimesUtils.Lib.Pairs
import ChimesUtils.Linux.Stat

/-!
# Line breaks in HTML

`text_insert_br` puts a tag between the lines of a text.

* `insertBrLoop_eq`: the loop joins the lines;
* `textInsertBr_lines`: the result is one line, and has the lines of the text between its tags.
-/

namespace ChimesUtils

open Lib

def brTag : Text := "<br />".toList

/-- The loop over the lines. -/
def insertBrLoop (len : ℕ) : ℕ → List Text → Text → Text
  | _, [], newtext => newtext
  | stx, sxtr :: lst, newtext =>
    if stx < len - 1 then insertBrLoop len (stx + 1) lst (newtext ++ sxtr ++ brTag)
    else insertBrLoop len (stx + 1) lst (newtext ++ sxtr)

/-- `text_insert_br`. -/
def textInsertBr (oldtext : Option Text) : Option Text :=
  oldtext.map fun text => insertBrLoop (lines text).length 0 (lines text) []

theorem insertBrLoop_eq {len stx : ℕ} {lst : List Text} (hlen : stx + lst.length = len)
    (newtext : Text) : insertBrLoop len stx lst newtext = newtext ++ List.intercalate brTag lst := by
  induction lst generalizing stx newtext with
  | nil => rw [insertBrLoop, List.intercalate_nil, List.append_nil]
  | cons sxtr lst ih =>
    have hnext : stx + 1 + lst.length = len := by
      rw [← hlen, List.length_cons]
      omega
    cases lst with
    | nil =>
      rw [insertBrLoop, if_neg (by simp at hlen; omega), ih hnext, List.intercalate_nil,
        List.intercalate_singleton, List.append_nil]
    | cons next lst =>
      rw [insertBrLoop, if_pos (by simp at hlen; omega), ih hnext, List.intercalate_cons_cons]
      simp only [List.append_assoc]

theorem textInsertBr_some (text : Text) :
    textInsertBr (some text) = some (List.intercalate brTag (lines text)) :=
  congrArg some (insertBrLoop_eq (Nat.zero_add _) [])

/-! ## Lines -/

theorem of_mem_lines {line text : Text} (h : line ∈ lines text) : line <:+: text ∧ '\n' ∉ line := by
  have hstrip : ∀ part : Text, stripCr part <+: part := by
    intro part
    unfold stripCr
    split_ifs
    · exact List.dropLast_prefix part
    · exact List.prefix_refl part
  rcases List.mem_append.mp h with hmem | hlast
  · obtain ⟨part, hpart, rfl⟩ := List.mem_map.mp hmem
    obtain ⟨hstands, hnot⟩ := of_mem_splitOn (List.dropLast_subset _ hpart)
    exact ⟨(hstrip part).isInfix.trans hstands, fun hn => hnot ((hstrip part).subset hn)⟩
  · rw [Option.mem_toList, Option.filter_eq_some_iff] at hlast
    exact of_mem_splitOn (List.mem_of_getLast? hlast.1)

theorem intercalate_lines {text : Text} (h : '\n' ∉ text) (t : Text) :
    List.intercalate t (lines text) = text := by
  by_cases hempty : text = []
  · rw [hempty, lines_nil, List.intercalate_nil]
  · rw [lines_last h hempty, List.intercalate_singleton]

theorem notMem_intercalate {c : Char} {t : Text} (ht : c ∉ t) {ls : List Text}
    (h : ∀ line ∈ ls, c ∉ line) : c ∉ List.intercalate t ls := by
  induction ls with
  | nil => exact List.not_mem_nil
  | cons line ls ih =>
    rw [List.forall_mem_cons] at h
    cases ls with
    | nil =>
      rw [List.intercalate_singleton]
      exact h.1
    | cons next ls =>
      rw [List.intercalate_cons_cons, List.mem_append, List.mem_append]
      rintro ((hc | hc) | hc)
      · exact h.1 hc
      · exact ht hc
      · exact ih h.2 hc

theorem replace_intercalate {ls : List Text} (h : ∀ line ∈ ls, ¬ brTag <:+: line) (t : Text) :
    replace brTag t (List.intercalate brTag ls) = List.intercalate t ls := by
  induction ls with
  | nil => exact replace_nil (List.cons_ne_nil _ _)
  | cons line ls ih =>
    rw [List.forall_mem_cons] at h
    cases ls with
    | nil =>
      rw [List.intercalate_singleton, List.intercalate_singleton]
      exact replace_of_not_infix (List.cons_ne_nil _ _) h.1
    | cons next ls =>
      rw [List.intercalate_cons_cons, List.intercalate_cons_cons, List.append_assoc]
      have hfirst := replace_append_of_not_infix (a := '<') (p := "br />".toList) (t := t) (by decide) h.1
        (List.intercalate brTag (next :: ls))
      rw [← ih h.2]
      exact hfirst

/-- **Lines.** Every text gives one line, from which nothing more is made; where the text has no tag of
its own, a newline for every tag gives its lines. -/
theorem textInsertBr_lines (text : Text) : ∃ html, textInsertBr (some text) = some html ∧
    '\n' ∉ html ∧ textInsertBr (some html) = some html ∧
    (¬ brTag <:+: text → replace brTag ['\n'] html = List.intercalate ['\n'] (lines text)) := by
  have hone : '\n' ∉ List.intercalate brTag (lines text) :=
    notMem_intercalate (by decide) fun line hline => (of_mem_lines hline).2
  refine ⟨_, textInsertBr_some text, hone, ?_, fun htag => ?_⟩
  · rw [textInsertBr_some, intercalate_lines hone]
  · exact replace_intercalate (fun line hline hin => htag (hin.trans (of_mem_lines hline).1)) _

end ChimesUtils
