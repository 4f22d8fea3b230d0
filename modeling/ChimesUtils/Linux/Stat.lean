import ChimesUtils.Lib.Fields
import ChimesUtils.Numerals

/-!
# The thread count of a process

`get_thread_count` reads `/proc/<pid>/stat`, splits each line at white space, and parses the word that
comes twentieth. The second field of the line is the name of the command in brackets.

* `splitWhitespace_line`: the words of a line of the kernel;
* `getThreadCount_eq_iff`: for which lines the result is field 20.
-/

namespace ChimesUtils

open Lib

/-- `str::split_whitespace`. -/
def splitWhitespace (s : Text) : List Text := fields isWhitespace s

/-- The end of a line without its carriage return. -/
def stripCr (line : Text) : Text := if line.getLast? = some '\r' then line.dropLast else line

/-- `str::lines`: the parts that a newline ends, and the last one if it is not empty. -/
def lines (s : Text) : List Text :=
  let parts := s.splitOn '\n'
  parts.dropLast.map stripCr ++ (parts.getLast?.filter fun part => !part.isEmpty).toList

/-- A file of `/proc`: it cannot be opened or read, or it has these bytes. -/
inductive ProcFile where
  | unreadable
  | opened (bytes : Bytes)

/-- The number that a word writes, or 0. -/
def wordValue (word : Option Text) : ℕ := (word.bind parseU32).getD 0

/-- `thc` for one line. -/
def lineThreads (line : Text) : ℕ :=
  let items := splitWhitespace line
  if 20 < items.length then wordValue items[19]? else 0

/-- The loop over the lines. -/
def threadLoop : List Text → ℕ
  | [] => 0
  | line :: rest => if 0 < lineThreads line then lineThreads line else threadLoop rest

/-- `LinuxPerformance::get_thread_count`, with the file of the process. -/
def getThreadCount : ProcFile → ℕ
  | .unreadable => 0
  | .opened bytes => match fromUtf8 bytes with
    | some text => threadLoop (lines text)
    | none => 0

/-! ## A line of the kernel -/

/-- The one line of `/proc/<pid>/stat`: the process, the name of the command, and the fields from the
third on, of which the twentieth is the number of threads. -/
structure StatLine where
  pid : ℕ
  comm : Text
  rest : List Text
  threads : ℕ
  newline : Bool
  comm_newline : '\n' ∉ comm
  rest_fields : ∀ f ∈ rest, IsWholeField isWhitespace f
  enough : 19 ≤ rest.length
  threads_u32 : threads < 2 ^ 32
  threads_field : rest[17]? = some (decimal threads)

namespace StatLine

variable (l : StatLine)

/-- The second field. -/
def name : Text := '(' :: l.comm ++ [')']

def line : Text := decimal l.pid ++ ' ' :: (l.name ++ l.rest.flatMap (' ' :: ·))

/-- The content of the file. -/
def text : Text := l.line ++ if l.newline then ['\n'] else []

/-- How many words the name has beyond one. -/
def extra : ℕ := (splitWhitespace l.name).length - 1

/-- The word in the place of field 20 when each word counts as a field: a field further in front, or a
word of the name. -/
def shifted : Option Text :=
  if l.extra ≤ 17 then l.rest[17 - l.extra]? else (splitWhitespace l.name)[18]?

end StatLine

/-! ## Splitting the line -/

theorem isWholeField_decimal (n : ℕ) : IsWholeField isWhitespace (decimal n) := by
  refine ⟨decimal_ne_nil n, fun c hc => ?_⟩
  have hdigit := isDigit_of_mem_decimal hc
  rw [Char.isDigit, Bool.and_eq_true, decide_eq_true_eq, decide_eq_true_eq] at hdigit
  have hlow : 48 ≤ c.toNat := hdigit.1
  have hhigh : c.toNat ≤ 57 := hdigit.2
  exact isWhitespace_eq_false (by omega) (by omega)

theorem newline_notMem_of_isWholeField {f : Text} (h : IsWholeField isWhitespace f) : '\n' ∉ f := by
  intro hmem
  exact absurd (h.2 _ hmem) (by decide)

/-- White space within a line. -/
def IsBlank (c : Char) : Prop := isWhitespace c = true ∧ c ≠ '\n'

theorem newline_notMem_of_isBlank {gap : Text} (h : ∀ c ∈ gap, IsBlank c) : '\n' ∉ gap :=
  fun hmem => (h _ hmem).2 rfl

theorem splitWhitespace_stripCr (line : Text) :
    splitWhitespace (stripCr line) = splitWhitespace line := by
  unfold stripCr
  by_cases h : line.getLast? = some '\r'
  · rw [if_pos h]
    have hline : line = line.dropLast ++ '\r' :: [] := (List.dropLast_append_getLast? _ h).symm
    conv_rhs => rw [hline]
    unfold splitWhitespace
    rw [fields_append _ _ (by decide), fields_nil, List.append_nil]
  · rw [if_neg h]

theorem lineThreads_stripCr (line : Text) : lineThreads (stripCr line) = lineThreads line := by
  unfold lineThreads
  rw [splitWhitespace_stripCr]

theorem lines_cons {line : Text} (h : '\n' ∉ line) (s : Text) :
    lines (line ++ '\n' :: s) = stripCr line :: lines s := by
  obtain ⟨part, parts, hparts⟩ := List.exists_cons_of_ne_nil (List.splitOn_ne_nil '\n' s)
  unfold lines
  rw [List.splitOn_append_cons_self_of_not_mem h, hparts]
  rfl

theorem lines_nil : lines [] = [] := rfl

theorem lines_last {line : Text} (h : '\n' ∉ line) (hne : line ≠ []) : lines line = [line] := by
  unfold lines
  rw [List.splitOn_eq_singleton h]
  simp [hne]

/-- A file with these lines, of which the last may lack its newline. -/
def fileOf (newline : Bool) : List Text → Text
  | [] => []
  | [line] => line ++ if newline then ['\n'] else []
  | line :: line' :: ls => line ++ '\n' :: fileOf newline (line' :: ls)

/-- **Lines.** What does not look at carriage returns finds the lines of the file. -/
theorem map_lines_fileOf {β : Type} {g : Text → β} (hg : ∀ line, g (stripCr line) = g line)
    (newline : Bool) {ls : List Text} (hls : ∀ line ∈ ls, '\n' ∉ line ∧ line ≠ []) :
    (lines (fileOf newline ls)).map g = ls.map g := by
  induction ls using fileOf.induct with
  | case1 => rfl
  | case2 line =>
    obtain ⟨hline, hne⟩ := hls line List.mem_cons_self
    unfold fileOf
    cases newline with
    | false =>
      rw [if_neg Bool.false_ne_true, List.append_nil, lines_last hline hne]
    | true =>
      rw [if_pos rfl, lines_cons hline, lines_nil, List.map_singleton, List.map_singleton, hg]
  | case3 line line' ls ih =>
    obtain ⟨hline, hls⟩ := List.forall_mem_cons.mp hls
    unfold fileOf
    rw [lines_cons hline.1, List.map_cons, ih hls, hg]
    rfl

theorem threadLoop_singleton (line : Text) : threadLoop [line] = lineThreads line := by
  unfold threadLoop threadLoop
  by_cases h : 0 < lineThreads line
  · rw [if_pos h]
  · rw [if_neg h]
    omega

namespace StatLine

variable (l : StatLine)

/-- **Words.** The process, the words of the name, and the other fields. -/
theorem splitWhitespace_line :
    splitWhitespace l.line = decimal l.pid :: (splitWhitespace l.name ++ l.rest) := by
  unfold splitWhitespace line
  rw [fields_append _ _ (by decide), (isWholeField_decimal l.pid).fields_eq,
    fields_flatMap (by decide) l.rest_fields, List.singleton_append]

theorem newline_notMem_line : '\n' ∉ l.line := by
  have hrest : '\n' ∉ l.rest.flatMap (' ' :: ·) := by
    rw [List.mem_flatMap]
    rintro ⟨f, hf, hmem⟩
    rcases List.mem_cons.mp hmem with heq | hmem
    · exact absurd heq (by decide)
    · exact newline_notMem_of_isWholeField (l.rest_fields f hf) hmem
  have hpid := newline_notMem_of_isWholeField (isWholeField_decimal l.pid)
  have hcomm := l.comm_newline
  unfold line name
  generalize l.rest.flatMap (' ' :: ·) = tail at hrest
  simp [hpid, hcomm, hrest]

theorem threadLoop_lines : threadLoop (lines l.text) = lineThreads l.line := by
  have hne : l.line ≠ [] := by
    unfold line
    simp
  unfold text
  cases l.newline with
  | true =>
    rw [if_pos rfl, lines_cons l.newline_notMem_line, lines_nil, threadLoop_singleton,
      lineThreads_stripCr]
  | false =>
    rw [if_neg Bool.false_ne_true, List.append_nil, lines_last l.newline_notMem_line hne,
      threadLoop_singleton]

theorem name_words : (splitWhitespace l.name).length = l.extra + 1 := by
  have hpos : 0 < (splitWhitespace l.name).length :=
    List.length_pos_iff.mpr (fields_ne_nil (List.mem_cons_self) (by decide : isWhitespace '(' = false))
  unfold extra
  omega

theorem extra_eq_zero_iff : l.extra = 0 ↔ ∀ c ∈ l.comm, isWhitespace c = false := by
  have hone : (splitWhitespace l.name).length = 1 ↔ ∀ c ∈ l.comm, isWhitespace c = false :=
    length_fields_eq_one_iff (by decide) (by decide)
  rw [← hone, l.name_words]
  omega

/-- **The loop.** It takes the shifted word for field 20. -/
theorem lineThreads_line : lineThreads l.line = wordValue l.shifted := by
  have hlength : 20 < (splitWhitespace l.line).length := by
    rw [l.splitWhitespace_line, List.length_cons, List.length_append, l.name_words]
    have := l.enough
    omega
  have hitem : (splitWhitespace l.line)[19]? = l.shifted := by
    rw [l.splitWhitespace_line, List.getElem?_cons_succ]
    unfold shifted
    by_cases hextra : l.extra ≤ 17
    · rw [if_pos hextra, List.getElem?_append_right (by rw [l.name_words]; omega), l.name_words]
      congr 1
      omega
    · rw [if_neg hextra, List.getElem?_append_left (by rw [l.name_words]; omega)]
  unfold lineThreads
  rw [if_pos hlength, hitem]

theorem getThreadCount_text : getThreadCount (.opened (utf8 l.text)) = wordValue l.shifted := by
  simp only [getThreadCount, fromUtf8_utf8]
  rw [l.threadLoop_lines, l.lineThreads_line]

theorem wordValue_threads_field : wordValue l.rest[17]? = l.threads := by
  rw [wordValue, l.threads_field, Option.bind_some, parseU32, parseUnsigned_decimal,
    if_pos l.threads_u32, Option.getD_some]

end StatLine

/-- **Threads.** The result is field 20 just when the name has no white space, or the word that comes
in the place of field 20 happens to have the same value. -/
theorem getThreadCount_eq_iff (l : StatLine) : getThreadCount (.opened (utf8 l.text)) = l.threads ↔
    (∀ c ∈ l.comm, isWhitespace c = false) ∨ wordValue l.shifted = l.threads := by
  rw [l.getThreadCount_text]
  constructor
  · exact .inr
  · rintro (hcomm | hsame)
    · have hextra := l.extra_eq_zero_iff.mpr hcomm
      unfold StatLine.shifted
      rw [hextra, if_pos (Nat.zero_le _)]
      exact l.wordValue_threads_field
    · exact hsame

/-- The command `my app`, with four threads and the `nice` value 0. -/
def myApp : StatLine where
  pid := 7
  comm := "my app".toList
  rest := ['S'] :: [1, 7, 7, 0, 7, 4194560, 100, 0, 0, 0, 5, 3, 0, 0, 20, 0, 4, 0, 1000].map decimal
  threads := 4
  newline := true
  comm_newline := by decide
  rest_fields := by
    refine List.forall_mem_cons.mpr
      ⟨⟨List.cons_ne_nil _ _, List.forall_mem_singleton.mpr (by decide)⟩, fun f hf => ?_⟩
    obtain ⟨n, -, rfl⟩ := List.mem_map.mp hf
    exact isWholeField_decimal n
  enough := by decide
  threads_u32 := by decide
  threads_field := rfl

/-- The value of `nice` is taken for the number of threads. -/
theorem getThreadCount_myApp :
    getThreadCount (.opened (utf8 myApp.text)) = 0 ∧ myApp.threads = 4 := by
  refine ⟨?_, rfl⟩
  have hextra : myApp.extra = 1 := by decide
  rw [myApp.getThreadCount_text, StatLine.shifted, hextra]
  decide

end ChimesUtils
