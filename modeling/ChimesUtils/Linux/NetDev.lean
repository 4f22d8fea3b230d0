import ChimesUtils.Linux.Stat

/-!
# The network counters of a process

`get_network_io_counter` adds up two columns of `/proc/<pid>/net/dev`. The two header lines are not
skipped: the first is too short, and the second has a title where the first number is expected.

* `words_line`: the words of an interface line;
* `getNetworkIoCounter_netDev`: the sums over all interfaces.
-/

namespace ChimesUtils

open Lib

/-- `fetch_add` of an `AtomicU64`. -/
def fetchAdd (counter t : ℕ) : ℕ := (counter + t) % 2 ^ 64

/-- One line of the loop: `read_bytes` and `write_bytes`. -/
def networkLine (line : Text) (counts : ℕ × ℕ) : ℕ × ℕ :=
  let items := splitWhitespace line
  if 10 < items.length then
    match items[1]?.bind parseU64 with
    | none => counts
    | some received =>
      let counts := (fetchAdd counts.1 received, counts.2)
      match items[9]?.bind parseU64 with
      | none => counts
      | some sent => (counts.1, fetchAdd counts.2 sent)
  else counts

/-- `LinuxPerformance::get_network_io_counter`, with the file of the process. -/
def getNetworkIoCounter : ProcFile → ℕ × ℕ
  | .unreadable => (0, 0)
  | .opened bytes => match fromUtf8 bytes with
    | some text => (lines text).foldl (fun counts line => networkLine line counts) (0, 0)
    | none => (0, 0)

/-! ## The file of the kernel -/

/-- A line `name: c1 … c16`, with blanks before each counter and perhaps at the ends. -/
structure InterfaceLine where
  indent : Text
  name : Text
  counters : List (Text × ℕ)
  padding : Text
  indent_blank : ∀ c ∈ indent, IsBlank c
  name_word : ∀ c ∈ name, isWhitespace c = false
  sixteen : counters.length = 16
  gaps_blank : ∀ e ∈ counters, e.1 ≠ [] ∧ ∀ c ∈ e.1, IsBlank c
  counters_u64 : ∀ e ∈ counters, e.2 < 2 ^ 64
  padding_blank : ∀ c ∈ padding, IsBlank c

namespace InterfaceLine

variable (l : InterfaceLine)

def line : Text :=
  l.indent ++ (l.name ++ [':'] ++ (l.counters.flatMap fun e => e.1 ++ decimal e.2) ++ l.padding)

/-- The counter `c1`, `c2`, … -/
def counter (i : ℕ) : ℕ := (l.counters.map Prod.snd)[i - 1]?.getD 0

end InterfaceLine

/-- The two header lines. -/
def netDevHeaders : List Text :=
  ["Inter-|   Receive                                                |  Transmit".toList,
    " face |bytes    packets errs drop fifo frame compressed multicast".toList ++
      "|bytes    packets errs drop fifo colls carrier compressed".toList]

/-- The content of the file. -/
def netDev (interfaces : List InterfaceLine) (newline : Bool) : Text :=
  fileOf newline (netDevHeaders ++ interfaces.map InterfaceLine.line)

/-! ## One line -/

theorem networkLine_stripCr (line : Text) (counts : ℕ × ℕ) :
    networkLine (stripCr line) counts = networkLine line counts := by
  unfold networkLine
  rw [splitWhitespace_stripCr]

theorem netDevHeaders_lines : ∀ line ∈ netDevHeaders, '\n' ∉ line ∧ line ≠ [] := by
  refine List.forall_mem_cons.mpr ⟨?_, List.forall_mem_singleton.mpr ?_⟩
  · decide +kernel
  · decide +kernel

/-- **Headers.** They leave the counters as they are. -/
theorem networkLine_header {line : Text} (h : line ∈ netDevHeaders) (counts : ℕ × ℕ) :
    networkLine line counts = counts := by
  have hheaders : ∀ line ∈ netDevHeaders, 10 < (splitWhitespace line).length →
      (splitWhitespace line)[1]?.bind parseU64 = none := by
    refine List.forall_mem_cons.mpr ⟨?_, List.forall_mem_singleton.mpr ?_⟩
    · decide +kernel
    · decide +kernel
  unfold networkLine
  by_cases hlength : 10 < (splitWhitespace line).length
  · simp only [if_pos hlength, hheaders line h hlength]
  · exact if_neg hlength

namespace InterfaceLine

variable (l : InterfaceLine)

/-- **Words.** The name with its colon, and the counters. -/
theorem words_line : splitWhitespace l.line =
    (l.name ++ [':']) :: l.counters.map fun e => decimal e.2 := by
  have hname : IsWholeField isWhitespace (l.name ++ [':']) := by
    refine ⟨List.append_ne_nil_of_right_ne_nil _ (List.cons_ne_nil _ _), fun c hc => ?_⟩
    rcases List.mem_append.mp hc with hc | hc
    · exact l.name_word c hc
    · rw [List.mem_singleton.mp hc]
      decide
  have hgaps : ∀ e ∈ l.counters.map fun e => (e.1, decimal e.2), IsGapped isWhitespace e := by
    intro word hword
    obtain ⟨e, he, rfl⟩ := List.mem_map.mp hword
    obtain ⟨hne, hblank⟩ := l.gaps_blank e he
    exact ⟨⟨hne, fun c hc => (hblank c hc).1⟩, isWholeField_decimal e.2⟩
  have hfields := fields_gaps hgaps (l.name ++ [':'])
  rw [List.flatMap_map, List.map_map, hname.fields_eq] at hfields
  unfold splitWhitespace line
  rw [fields_gap_append fun c hc => (l.indent_blank c hc).1,
    fields_append_gap_end fun c hc => (l.padding_blank c hc).1]
  exact hfields

theorem newline_notMem_line : '\n' ∉ l.line := by
  have hname : '\n' ∉ l.name := fun hmem => absurd (l.name_word _ hmem) (by decide)
  have hcounters : '\n' ∉ l.counters.flatMap fun e => e.1 ++ decimal e.2 := by
    rw [List.mem_flatMap]
    rintro ⟨e, he, hmem⟩
    rcases List.mem_append.mp hmem with hmem | hmem
    · exact newline_notMem_of_isBlank (l.gaps_blank e he).2 hmem
    · exact newline_notMem_of_isWholeField (isWholeField_decimal e.2) hmem
  unfold line
  rw [List.mem_append, List.mem_append, List.mem_append, List.mem_append, List.mem_singleton]
  rintro (h | ((h | h) | h) | h)
  · exact newline_notMem_of_isBlank l.indent_blank h
  · exact hname h
  · exact absurd h (by decide)
  · exact hcounters h
  · exact newline_notMem_of_isBlank l.padding_blank h

theorem parse_word {i : ℕ} (hi : i < 16) :
    (splitWhitespace l.line)[i + 1]?.bind parseU64 = some (l.counter (i + 1)) := by
  obtain ⟨e, he⟩ : ∃ e, l.counters[i]? = some e :=
    ⟨_, List.getElem?_eq_getElem (by rw [l.sixteen]; exact hi)⟩
  have hu64 := l.counters_u64 e (List.mem_of_getElem? he)
  rw [words_line, List.getElem?_cons_succ, List.getElem?_map, he, counter, Nat.add_sub_cancel,
    List.getElem?_map, he]
  show parseUnsigned (2 ^ 64) (decimal e.2) = some e.2
  rw [parseUnsigned_decimal, if_pos hu64]

/-- **Interfaces.** Both counters grow, or none. -/
theorem networkLine_line (counts : ℕ × ℕ) :
    networkLine l.line counts = (fetchAdd counts.1 (l.counter 1), fetchAdd counts.2 (l.counter 9)) := by
  have hlength : 10 < (splitWhitespace l.line).length := by
    rw [words_line, List.length_cons, List.length_map, l.sixteen]
    omega
  have hreceived := l.parse_word (i := 0) (by omega)
  have hsent := l.parse_word (i := 8) (by omega)
  rw [Nat.zero_add] at hreceived
  unfold networkLine
  simp only [if_pos hlength, hreceived, hsent]

end InterfaceLine

/-! ## The file -/

theorem foldl_interfaces (interfaces : List InterfaceLine) (received sent : ℕ) :
    (interfaces.map InterfaceLine.line).foldl (fun counts line => networkLine line counts)
        (received % 2 ^ 64, sent % 2 ^ 64) =
      ((received + (interfaces.map (·.counter 1)).sum) % 2 ^ 64,
        (sent + (interfaces.map (·.counter 9)).sum) % 2 ^ 64) := by
  induction interfaces generalizing received sent with
  | nil => rfl
  | cons l interfaces ih =>
    have hstep : networkLine l.line (received % 2 ^ 64, sent % 2 ^ 64) =
        ((received + l.counter 1) % 2 ^ 64, (sent + l.counter 9) % 2 ^ 64) := by
      rw [l.networkLine_line, fetchAdd, fetchAdd, Nat.mod_add_mod, Nat.mod_add_mod]
    simp only [List.map_cons, List.foldl_cons, List.sum_cons]
    rw [hstep, ih, Nat.add_assoc, Nat.add_assoc]

theorem netDev_lines (interfaces : List InterfaceLine) :
    ∀ line ∈ netDevHeaders ++ interfaces.map InterfaceLine.line, '\n' ∉ line ∧ line ≠ [] := by
  intro line hline
  rcases List.mem_append.mp hline with hline | hline
  · exact netDevHeaders_lines line hline
  · obtain ⟨l, -, rfl⟩ := List.mem_map.mp hline
    refine ⟨l.newline_notMem_line, ?_⟩
    unfold InterfaceLine.line
    simp

theorem foldl_lines_netDev (interfaces : List InterfaceLine) (newline : Bool) (counts : ℕ × ℕ) :
    (lines (netDev interfaces newline)).foldl (fun counts line => networkLine line counts) counts =
      (netDevHeaders ++ interfaces.map InterfaceLine.line).foldl
        (fun counts line => networkLine line counts) counts := by
  have hmap : (lines (netDev interfaces newline)).map networkLine =
      (netDevHeaders ++ interfaces.map InterfaceLine.line).map networkLine :=
    map_lines_fileOf (fun line => funext (networkLine_stripCr line)) newline (netDev_lines interfaces)
  have hfold := congrArg (List.foldl (fun counts step => step counts) counts) hmap
  rw [List.foldl_map, List.foldl_map] at hfold
  exact hfold

theorem foldl_headers (counts : ℕ × ℕ) :
    netDevHeaders.foldl (fun counts line => networkLine line counts) counts = counts := by
  simp only [netDevHeaders, List.foldl_cons, List.foldl_nil]
  rw [networkLine_header List.mem_cons_self,
    networkLine_header (List.mem_cons_of_mem _ List.mem_cons_self)]

/-- **Network.** For any number of interfaces, the result has the sums of the first and of the ninth
counters. -/
theorem getNetworkIoCounter_netDev (interfaces : List InterfaceLine) (newline : Bool) :
    getNetworkIoCounter (.opened (utf8 (netDev interfaces newline))) =
      ((interfaces.map (·.counter 1)).sum % 2 ^ 64, (interfaces.map (·.counter 9)).sum % 2 ^ 64) := by
  have hsums := foldl_interfaces interfaces 0 0
  rw [Nat.zero_add, Nat.zero_add] at hsums
  simp only [getNetworkIoCounter, fromUtf8_utf8]
  rw [foldl_lines_netDev, List.foldl_append, foldl_headers]
  exact hsums

end ChimesUtils
