import ChimesUtils.Float
import ChimesUtils.Linux.Stat

/-!
# The times of the processors

`get_process_times` takes the first line of `/proc/stat` that starts with `cpu `, and returns the time of
the users, the time of the system and the idle time, in this order.

* `words_line`: the words of the line;
* `getProcessTimes_text`: the result for a file of the kernel.
-/

namespace ChimesUtils

open Lib

/-- A counter as a number, or 0. -/
def ticks (word : Text) : F64 := ((parseU64 word).map fun t : ℕ => F64.ofRat t).getD 0

/-- What the words of the line give. Indexing panics where there are too few. -/
def totals (items : List Text) : Option (F64 × F64 × F64) := do
  let totalUser := ticks (← items[1]?)
  let totalUserLow := ticks (← items[2]?)
  let totalSys := ticks (← items[3]?)
  let totalIdle := ticks (← items[4]?)
  return (totalUser + totalUserLow, totalSys, totalIdle)

/-- The loop over the lines. -/
def timesLoop : List Text → Option (F64 × F64 × F64)
  | [] => some (0, 0, 0)
  | line :: rest =>
    if startsWith line "cpu ".toList then do
      let items := splitWhitespace line
      if (← items[0]?) = "cpu".toList then totals items else timesLoop rest
    else timesLoop rest

/-- `LinuxPerformance::get_process_times`, with the file `/proc/stat`. -/
def getProcessTimes : ProcFile → Option (F64 × F64 × F64)
  | .unreadable => some (0, 0, 0)
  | .opened bytes => match fromUtf8 bytes with
    | some text => timesLoop (lines text)
    | none => some (0, 0, 0)

/-! ## The file of the kernel -/

/-- A counter of the line, after blanks. -/
structure CpuCounter where
  gap : Text
  value : ℕ
  gap_ne_nil : gap ≠ []
  gap_blank : ∀ c ∈ gap, IsBlank c
  value_lt : value < 2 ^ 52

/-- The text of a counter. -/
def CpuCounter.text (c : CpuCounter) : Text := c.gap ++ decimal c.value

/-- The aggregate line: `cpu` and a space, four counters, and perhaps more columns. -/
structure CpuLine where
  user : CpuCounter
  nice : CpuCounter
  system : CpuCounter
  idle : CpuCounter
  further : Text
  user_space : user.gap.head? = some ' '
  further_blank : ∀ c ∈ further.head?, isWhitespace c = true
  further_newline : '\n' ∉ further

namespace CpuLine

variable (l : CpuLine)

def counters : List CpuCounter := [l.user, l.nice, l.system, l.idle]

def line : Text := "cpu".toList ++ l.counters.flatMap CpuCounter.text ++ l.further

end CpuLine

/-- The file: the aggregate line is the first that starts with `cpu `, and anything may follow it. -/
structure ProcStat where
  before : List Text
  aggregate : CpuLine
  after : Text
  before_other : ∀ line ∈ before, '\n' ∉ line ∧ ¬ "cpu ".toList <+: line
  after_newline : ∀ c ∈ after.head?, c = '\n'

/-- The content of the file. -/
def ProcStat.text (s : ProcStat) : Text :=
  s.before.flatMap (· ++ ['\n']) ++ (s.aggregate.line ++ s.after)

/-! ## The line -/

theorem startsWith_stripCr (line : Text) :
    startsWith (stripCr line) "cpu ".toList = startsWith line "cpu ".toList := by
  unfold stripCr
  by_cases h : line.getLast? = some '\r'
  · rw [if_pos h]
    have hline : line = line.dropLast ++ ['\r'] := (List.dropLast_append_getLast? _ h).symm
    have hne : "cpu ".toList ≠ line.dropLast ++ ['\r'] := by
      intro heq
      have hmem : '\r' ∈ "cpu ".toList := heq ▸ List.mem_append_right _ List.mem_cons_self
      exact absurd hmem (by decide)
    have hprefix : "cpu ".toList <+: line.dropLast ↔ "cpu ".toList <+: line := by
      conv_rhs => rw [hline, List.prefix_concat_iff]
      exact (or_iff_right hne).symm
    exact decide_eq_decide.mpr hprefix
  · rw [if_neg h]

namespace CpuLine

variable (l : CpuLine)

theorem startsWith_line : startsWith l.line "cpu ".toList = true := by
  obtain ⟨gap, hgap⟩ := List.head?_eq_some_iff.mp l.user_space
  unfold startsWith line counters
  rw [decide_eq_true_eq, List.flatMap_cons, CpuCounter.text, hgap]
  exact ⟨gap ++ decimal l.user.value ++ [l.nice, l.system, l.idle].flatMap CpuCounter.text ++ l.further,
    by simp [List.append_assoc]⟩

theorem newline_notMem_line : '\n' ∉ l.line := by
  have hcounter (c : CpuCounter) : '\n' ∉ c.text := by
    intro hmem
    rcases List.mem_append.mp hmem with hmem | hmem
    · exact newline_notMem_of_isBlank c.gap_blank hmem
    · exact newline_notMem_of_isWholeField (isWholeField_decimal c.value) hmem
  unfold line
  rw [List.mem_append, List.mem_append, List.mem_flatMap]
  rintro ((h | ⟨c, -, h⟩) | h)
  · exact absurd h (by decide)
  · exact hcounter c h
  · exact l.further_newline h

theorem fields_append_further (xs : Text) : splitWhitespace (xs ++ l.further) =
    splitWhitespace xs ++ splitWhitespace l.further := by
  have hblank := l.further_blank
  unfold splitWhitespace
  cases hfurther : l.further with
  | nil => rw [List.append_nil, fields_nil, List.append_nil]
  | cons c rest =>
    rw [hfurther] at hblank
    have hc : isWhitespace c = true := hblank c rfl
    have hskip : fields isWhitespace (c :: rest) = fields isWhitespace rest :=
      fields_gap_append (List.forall_mem_singleton.mpr hc) rest
    rw [fields_append _ _ hc, hskip]

/-- **Words.** The counters come after the name of the line, in their order. -/
theorem words_line : splitWhitespace l.line =
    "cpu".toList :: (l.counters.map fun c => decimal c.value) ++ splitWhitespace l.further := by
  have hletters : "cpu".toList.all (isWhitespace · = false) = true := by decide
  have hname : IsWholeField isWhitespace "cpu".toList :=
    ⟨List.cons_ne_nil _ _, fun c hc => of_decide_eq_true (List.all_eq_true.mp hletters c hc)⟩
  have hgaps : ∀ e ∈ l.counters.map fun c => (c.gap, decimal c.value), IsGapped isWhitespace e := by
    intro e he
    obtain ⟨c, -, rfl⟩ := List.mem_map.mp he
    exact ⟨⟨c.gap_ne_nil, fun x hx => (c.gap_blank x hx).1⟩, isWholeField_decimal c.value⟩
  have hfields := fields_gaps hgaps "cpu".toList
  rw [List.flatMap_map, List.map_map, hname.fields_eq] at hfields
  unfold line
  rw [fields_append_further]
  exact congrArg (· ++ splitWhitespace l.further) hfields

theorem ticks_decimal (c : CpuCounter) : ticks (decimal c.value) = .ofRat c.value := by
  have hlt := c.value_lt
  rw [ticks, parseU64, parseUnsigned_decimal, if_pos (by omega), Option.map_some, Option.getD_some]

/-- The times of the line. -/
def times : F64 × F64 × F64 :=
  (.ofRat l.user.value + .ofRat l.nice.value, .ofRat l.system.value, .ofRat l.idle.value)

/-- **The loop** ends at the line. -/
theorem timesLoop_line {line : Text} (hstart : startsWith line "cpu ".toList = true)
    (hwords : splitWhitespace line = splitWhitespace l.line) (rest : List Text) :
    timesLoop (line :: rest) = some l.times := by
  rw [timesLoop, if_pos hstart, hwords, words_line]
  simp only [List.cons_append, List.getElem?_cons_zero, Option.bind_eq_bind, Option.bind_some, if_true]
  show some (ticks (decimal l.user.value) + ticks (decimal l.nice.value),
    ticks (decimal l.system.value), ticks (decimal l.idle.value)) = _
  simp only [ticks_decimal]
  rfl

end CpuLine

/-! ## The file -/

namespace ProcStat

theorem timesLoop_before {before : List Text}
    (h : ∀ line ∈ before, '\n' ∉ line ∧ ¬ "cpu ".toList <+: line) (s : Text) :
    timesLoop (lines (before.flatMap (· ++ ['\n']) ++ s)) = timesLoop (lines s) := by
  induction before with
  | nil => rfl
  | cons line before ih =>
    obtain ⟨⟨hline, hother⟩, h⟩ := List.forall_mem_cons.mp h
    have hskip : startsWith (stripCr line) "cpu ".toList = false := by
      rw [startsWith_stripCr]
      exact decide_eq_false hother
    rw [List.flatMap_cons, List.append_assoc, List.append_assoc, List.singleton_append, lines_cons hline,
      timesLoop, hskip, if_neg Bool.false_ne_true, ih h]

theorem timesLoop_aggregate (s : ProcStat) :
    timesLoop (lines (s.aggregate.line ++ s.after)) = some s.aggregate.times := by
  have hstart := s.aggregate.startsWith_line
  have hline := s.aggregate.newline_notMem_line
  have hafter := s.after_newline
  cases h : s.after with
  | nil =>
    have hne : s.aggregate.line ≠ [] := by
      unfold CpuLine.line
      simp
    rw [List.append_nil, lines_last hline hne, s.aggregate.timesLoop_line hstart rfl]
  | cons c rest =>
    rw [h] at hafter
    have hc : c = '\n' := hafter c rfl
    rw [hc, lines_cons hline]
    exact s.aggregate.timesLoop_line ((startsWith_stripCr _).trans hstart)
      (splitWhitespace_stripCr _) _

/-- **Times.** The users, with the nice ones, the system, and the idle time. -/
theorem getProcessTimes_text (s : ProcStat) :
    getProcessTimes (.opened (utf8 s.text)) = some s.aggregate.times := by
  simp only [getProcessTimes, fromUtf8_utf8]
  unfold text
  rw [timesLoop_before s.before_other, s.timesLoop_aggregate]

end ProcStat

end ChimesUtils
